import Mathlib.Algebra.Order.BigOperators.Group.Finset
import PyFly.Backpressure

/-!
# The adaptive strategy and its limit

A new semaphore does not know of the tasks which hold or await a permit of an
earlier one.  In every run in which they and the tasks to come fit into the new
limit, whenever there is one, a processor is started only below the limit.
-/

namespace PyFly.Transactional

open Library List

variable {I V E : Type}

namespace TaskSemaphore

variable (counts : ℕ → Bool)

def size (semaphore : TaskSemaphore) : ℕ :=
  semaphore.value + semaphore.woken.length + semaphore.holders.length

def queued (semaphore : TaskSemaphore) : ℕ :=
  semaphore.pending.countP counts + semaphore.woken.countP counts

def load (semaphore : TaskSemaphore) : ℕ :=
  semaphore.queued counts + semaphore.holders.countP counts

variable {counts} {semaphore : TaskSemaphore} {task : ℕ}

theorem size_wakeUp (value : ℕ) (pending woken holders : List ℕ) :
    (wakeUp value pending woken holders).size = value + woken.length + holders.length := by
  fun_induction wakeUp value pending woken holders with
  | case1 value next pending woken holders ih =>
    rw [ih, length_append, length_singleton]
    omega
  | case2 => rfl

theorem queued_wakeUp (value : ℕ) (pending woken holders : List ℕ) :
    (wakeUp value pending woken holders).queued counts =
      pending.countP counts + woken.countP counts := by
  fun_induction wakeUp value pending woken holders with
  | case1 value next pending woken holders ih =>
    simp only [ih, countP_append, countP_cons, countP_nil]
    omega
  | case2 => rfl

theorem holders_wakeUp (value : ℕ) (pending woken holders : List ℕ) :
    (wakeUp value pending woken holders).holders = holders := by
  fun_induction wakeUp value pending woken holders with
  | case1 value next pending woken holders ih => exact ih
  | case2 => rfl

theorem size_take (hlocked : semaphore.locked = false) :
    (semaphore.take task).size = semaphore.size := by
  have hvalue : semaphore.value ≠ 0 := by
    intro hzero
    simp [locked, hzero] at hlocked
  simp only [size, take, length_cons]
  omega

theorem queued_wait (counts : ℕ → Bool) (semaphore : TaskSemaphore) (task : ℕ) :
    (semaphore.wait task).queued counts = semaphore.queued counts + [task].countP counts := by
  simp only [queued, wait, countP_append]
  omega

theorem size_resume (htask : task ∈ semaphore.woken) :
    (semaphore.resume task).size = semaphore.size := by
  have hlength := length_pos_of_mem htask
  rw [resume, size_wakeUp, length_erase_of_mem htask, length_cons, size]
  omega

theorem countP_erase_add (counts : ℕ → Bool) {tasks : List ℕ} (htask : task ∈ tasks) :
    (tasks.erase task).countP counts + [task].countP counts = tasks.countP counts := by
  rw [(perm_cons_erase htask).countP_eq counts]
  simp only [countP_cons, countP_nil]
  omega

theorem queued_resume (counts : ℕ → Bool) (htask : task ∈ semaphore.woken) :
    (semaphore.resume task).queued counts + [task].countP counts = semaphore.queued counts := by
  rw [resume, queued_wakeUp, Nat.add_assoc, countP_erase_add counts htask, queued]

theorem holders_resume : (semaphore.resume task).holders = task :: semaphore.holders :=
  holders_wakeUp _ _ _ _

theorem size_release (htask : task ∈ semaphore.holders) :
    (semaphore.release task).size = semaphore.size := by
  have hlength := length_pos_of_mem htask
  unfold release
  split <;> simp only [size, length_append, length_singleton,
    length_erase_of_mem htask] <;> omega

theorem queued_release : (semaphore.release task).queued counts = semaphore.queued counts := by
  unfold release
  split
  · rfl
  · rename_i next rest hpending
    simp only [queued, hpending, countP_append, countP_cons, countP_nil]
    omega

theorem holders_release : (semaphore.release task).holders = semaphore.holders.erase task := by
  unfold release
  split <;> rfl

end TaskSemaphore

namespace AdaptiveRun

variable {config : BackpressureConfig} {processor : Processor I V E} {items : List I}
  {run reached : AdaptiveRun V E}

theorem sum_setSemaphore (run : AdaptiveRun V E) (weight : TaskSemaphore → ℕ)
    {number : ℕ} (hnumber : number ≤ run.current) (semaphore : TaskSemaphore) :
    (run.setSemaphore number semaphore).sum weight + weight (run.semaphores number) =
      run.sum weight + weight semaphore := by
  have hmem : number ∈ Finset.range (run.current + 1) :=
    Finset.mem_range.mpr (Nat.lt_succ_of_le hnumber)
  have hothers : ∑ other ∈ (Finset.range (run.current + 1)).erase number,
        weight (Function.update run.semaphores number semaphore other) =
      ∑ other ∈ (Finset.range (run.current + 1)).erase number,
        weight (run.semaphores other) := by
    apply Finset.sum_congr rfl
    intro other hother
    rw [Function.update_of_ne (Finset.ne_of_mem_erase hother)]
  unfold sum setSemaphore
  rw [← Finset.add_sum_erase _ _ hmem, ← Finset.add_sum_erase _ _ hmem, hothers]
  simp only [Function.update_self]
  omega

theorem le_sum {number : ℕ} (weight : TaskSemaphore → ℕ) (hnumber : number ≤ run.current) :
    weight (run.semaphores number) ≤ run.sum weight :=
  Finset.single_le_sum (f := fun other => weight (run.semaphores other))
    (fun _ _ => Nat.zero_le _) (Finset.mem_range.mpr (Nat.lt_succ_of_le hnumber))

theorem sum_adapt (config : BackpressureConfig) (weight : TaskSemaphore → ℕ)
    (hfresh : ∀ value, weight ⟨value, [], [], []⟩ = 0) (run : AdaptiveRun V E) :
    (run.adapt config).sum weight = run.sum weight := by
  unfold adapt
  split
  · rfl
  · unfold sum setSemaphore
    rw [Finset.sum_range_succ]
    simp only [Function.update_self, hfresh, Nat.add_zero]
    apply Finset.sum_congr rfl
    intro number hmem
    rw [Function.update_of_ne (Finset.mem_range.mp hmem).ne]

/-! ## What a step does -/

/-- A task is moved within its semaphore, to it, or out of it. -/
def move (run : AdaptiveRun V E) (number : ℕ) (created : List ℕ)
    (semaphore : TaskSemaphore) : AdaptiveRun V E :=
  { run with created := created }.setSemaphore number semaphore

/-- The moves, with the tasks which go in and out of the semaphore. -/
inductive Moves (run : AdaptiveRun V E) :
    ℕ → List ℕ → List ℕ → AdaptiveRun V E → Prop
  | parked {index : ℕ} (hcreated : index ∈ run.created)
      (hlocked : (run.semaphores run.current).locked = true) :
      Moves run run.current [] [] (run.move run.current (run.created.erase index)
        ((run.semaphores run.current).wait index))
  | arrived {index : ℕ} (hcreated : index ∈ run.created)
      (hlocked : (run.semaphores run.current).locked = false) :
      Moves run run.current [index] [] (run.move run.current (run.created.erase index)
        ((run.semaphores run.current).take index))
  | resumed {number index : ℕ} (hnumber : number ≤ run.current)
      (hwoken : index ∈ (run.semaphores number).woken) :
      Moves run number [index] [] (run.move number run.created
        ((run.semaphores number).resume index))
  | left {number index : ℕ} (hnumber : number ≤ run.current)
      (hholder : index ∈ (run.semaphores number).holders) :
      Moves run number [] [index] (run.move number run.created
        ((run.semaphores number).release index))

def Ends (processor : Processor I V E) (items : List I) (run : AdaptiveRun V E)
    (ended : ℕ × ℕ × Except E V) : Prop :=
  ended.1 ≤ run.current ∧ ended.2.1 ∈ (run.semaphores ended.1).holders ∧
    ∃ task, (enumerated items)[ended.2.1]? = some task ∧ ended.2.2 = (processor task).outcome

theorem proceed_cases {pick : AdaptivePick} {events : List (Started I)}
    {ended : Option (ℕ × ℕ × Except E V)}
    (hproceed : run.proceed processor items pick = some (reached, events, ended)) :
    (∀ ending, ended = some ending → reached.Ends processor items ending) ∧
      ((∃ number, run.Moves number [] [] reached ∧ events = [] ∧ ended = none) ∨
        (∃ number index task, run.Moves number [index] [] reached ∧
          (enumerated items)[index]? = some task ∧
          events = [⟨task, run.inFlight, run.concurrency⟩] ∧
          ended = if (processor task).suspends then none
            else some (number, index, (processor task).outcome)) ∨
        reached = run ∧ events = [] ∧ ended ≠ none) := by
  unfold proceed at hproceed
  split at hproceed
  · rename_i index
    by_cases hcreated : index ∈ run.created
    · cases hlocked : (run.semaphores run.current).locked with
      | true =>
        simp only [hcreated, hlocked, not_true_eq_false, if_false, if_true] at hproceed
        cases hproceed
        exact ⟨by simp, .inl ⟨_, .parked hcreated hlocked, rfl, rfl⟩⟩
      | false =>
        simp only [hcreated, hlocked, not_true_eq_false, if_false,
          Bool.false_eq_true, enter] at hproceed
        obtain ⟨task, htask, hsame⟩ := Option.map_eq_some_iff.mp hproceed
        cases hsame
        refine ⟨fun ending hended => ?_,
          .inr (.inl ⟨_, index, task, .arrived hcreated hlocked, htask, rfl, rfl⟩)⟩
        split at hended
        · cases hended
        · cases hended
          exact ⟨Nat.le_refl _, by simp [setSemaphore, TaskSemaphore.take], task, htask, rfl⟩
    · simp [hcreated] at hproceed
  · dsimp only at hproceed
    split at hproceed
    · rename_i hready
      obtain ⟨task, htask, hsame⟩ := Option.map_eq_some_iff.mp hproceed
      cases hsame
      refine ⟨fun ending hended => ?_,
        .inr (.inl ⟨_, _, task, .resumed hready.1 hready.2, htask, rfl, rfl⟩)⟩
      split at hended
      · cases hended
      · cases hended
        exact ⟨hready.1, by simp [setSemaphore, TaskSemaphore.holders_resume], task, htask,
          rfl⟩
    · cases hproceed
  · split at hproceed
    · rename_i hready
      obtain ⟨task, htask, hsame⟩ := Option.map_eq_some_iff.mp hproceed
      cases hsame
      refine ⟨fun ending hended => ?_, .inr (.inr ⟨rfl, rfl, by simp⟩)⟩
      cases hended
      exact ⟨hready.1, hready.2, task, htask, rfl⟩
    · cases hproceed

section Weights

variable (counts : ℕ → Bool)

/-- The counted tasks which have not called the processor, and those in it. -/
def unstarted (run : AdaptiveRun V E) : ℕ :=
  run.created.countP counts + run.sum (TaskSemaphore.queued counts)

def held (run : AdaptiveRun V E) : ℕ :=
  run.sum fun semaphore => semaphore.holders.countP counts

variable {counts} {number index : ℕ} {created started left : List ℕ}
  {semaphore : TaskSemaphore} {next : AdaptiveRun V E}

/-- What a move does to its semaphore and to the tasks which are not there yet. -/
theorem Moves.spec (hmoves : run.Moves number started left next) :
    number ≤ run.current ∧ ∃ created semaphore, next = run.move number created semaphore ∧
      semaphore.size = (run.semaphores number).size ∧
      (number = run.current ∨ created = run.created) ∧ ∀ counts,
        created.countP counts ≤ run.created.countP counts ∧
        created.countP counts + semaphore.queued counts + started.countP counts =
          run.created.countP counts + (run.semaphores number).queued counts ∧
        semaphore.holders.countP counts + left.countP counts =
          (run.semaphores number).holders.countP counts + started.countP counts := by
  cases hmoves with
  | parked hcreated hlocked =>
    refine ⟨Nat.le_refl _, _, _, rfl, rfl, .inl rfl, fun counts => ?_⟩
    have herase := TaskSemaphore.countP_erase_add counts hcreated
    rw [TaskSemaphore.queued_wait, ← herase]
    exact ⟨Nat.le_add_right _ _, by simp only [countP_nil]; omega, rfl⟩
  | arrived hcreated hlocked =>
    refine ⟨Nat.le_refl _, _, _, rfl, TaskSemaphore.size_take hlocked, .inl rfl,
      fun counts => ?_⟩
    have herase := TaskSemaphore.countP_erase_add counts hcreated
    rw [← herase, Nat.add_right_comm]
    exact ⟨Nat.le_add_right _ _, rfl, by simp [TaskSemaphore.take, countP_cons]⟩
  | resumed hnumber hwoken =>
    refine ⟨hnumber, _, _, rfl, TaskSemaphore.size_resume hwoken, .inr rfl,
      fun counts => ⟨Nat.le_refl _, ?_, ?_⟩⟩
    · rw [Nat.add_assoc, TaskSemaphore.queued_resume counts hwoken]
    · rw [TaskSemaphore.holders_resume]
      simp only [countP_cons, countP_nil]
      omega
  | left hnumber hholder =>
    refine ⟨hnumber, _, _, rfl, TaskSemaphore.size_release hholder, .inr rfl,
      fun counts => ⟨Nat.le_refl _, ?_, ?_⟩⟩
    · rw [TaskSemaphore.queued_release]
      rfl
    · rw [TaskSemaphore.holders_release, TaskSemaphore.countP_erase_add counts hholder]
      rfl

theorem Moves.unstarted (hmoves : run.Moves number started left next) (counts : ℕ → Bool) :
    next.unstarted counts + started.countP counts = run.unstarted counts := by
  obtain ⟨hnumber, created, semaphore, rfl, -, -, hcounts⟩ := hmoves.spec
  have hsum := sum_setSemaphore { run with created := created }
    (TaskSemaphore.queued counts) hnumber semaphore
  have hmoved := (hcounts counts).2.1
  simp only [AdaptiveRun.unstarted, move, setSemaphore, sum] at hsum ⊢
  omega

theorem Moves.held (hmoves : run.Moves number started left next) (counts : ℕ → Bool) :
    next.held counts + left.countP counts = run.held counts + started.countP counts := by
  obtain ⟨hnumber, created, semaphore, rfl, -, -, hcounts⟩ := hmoves.spec
  have hsum : (run.move number created semaphore).held counts + _ = run.held counts + _ :=
    sum_setSemaphore { run with created := created } _ hnumber semaphore
  have hmoved := (hcounts counts).2.2
  dsimp only at hsum
  omega

theorem Moves.number_le (hmoves : run.Moves number started left next) : number ≤ run.current :=
  hmoves.spec.1

theorem Moves.same (hmoves : run.Moves number started left next) :
    next.current = run.current ∧ next.concurrency = run.concurrency ∧
      next.results = run.results := by
  obtain ⟨-, created, semaphore, rfl, -⟩ := hmoves.spec
  exact ⟨rfl, rfl, rfl⟩

end Weights

/-- The task gives its permit back. -/
def leave (run : AdaptiveRun V E) (number index : ℕ) : AdaptiveRun V E :=
  run.move number run.created ((run.semaphores number).release index)

theorem adapt_of_none (hadapted : run.adapted? config = none) : run.adapt config = run := by
  rw [adapt, hadapted]

theorem adapt_of_some {concurrency : ℕ} (hadapted : run.adapted? config = some concurrency) :
    run.adapt config =
      { run.setSemaphore (run.current + 1) ⟨concurrency, [], [], []⟩ with
        concurrency := concurrency
        current := run.current + 1 } := by
  rw [adapt, hadapted]

theorem created_adapt (config : BackpressureConfig) (run : AdaptiveRun V E) :
    (run.adapt config).created = run.created := by
  unfold adapt
  split <;> rfl

theorem unstarted_adapt (counts : ℕ → Bool) :
    (run.adapt config).unstarted counts = run.unstarted counts := by
  rw [unstarted, unstarted, created_adapt, sum_adapt config _ fun _ => rfl]

theorem held_adapt (counts : ℕ → Bool) : (run.adapt config).held counts = run.held counts :=
  sum_adapt config _ (fun _ => rfl) run

/-- The adaptation does not touch the semaphore of the task. -/
theorem complete_eq (config : BackpressureConfig) (run : AdaptiveRun V E) (index : ℕ)
    (outcome : Except E V) (elapsed : ℚ) {number : ℕ} (hnumber : number ≤ run.current) :
    run.complete config number index outcome elapsed =
      ((run.leave number index).record index outcome elapsed).adapt config := by
  have hne : number ≠ run.current + 1 := (Nat.lt_succ_of_le hnumber).ne
  have hsame : ((run.leave number index).record index outcome elapsed).adapted? config =
    (run.record index outcome elapsed).adapted? config := rfl
  unfold complete
  cases hadapted : (run.record index outcome elapsed).adapted? config with
  | none =>
    rw [adapt_of_none hadapted, adapt_of_none (hsame.trans hadapted)]
    rfl
  | some concurrency =>
    rw [adapt_of_some hadapted, adapt_of_some (hsame.trans hadapted)]
    simp only [setSemaphore, leave, move, record, Function.update_of_ne hne]
    rw [Function.update_comm hne.symm]

section Limit

variable (processor : Processor I V E) (items : List I)

def lasts (index : ℕ) : Bool :=
  (enumerated items)[index]?.any fun task => (processor task).suspends

/-- A task, and those whose processors can be in flight beside its own. -/
def beside (task other : ℕ) : Bool := other == task || lasts processor items other

/-- How many of the counted tasks a semaphore can let in together. -/
def room (counts : ℕ → Bool) (run : AdaptiveRun V E) (number : ℕ) : ℕ :=
  min (run.semaphores number).size ((run.semaphores number).load counts +
    if number = run.current then run.created.countP counts else 0)

def demand (counts : ℕ → Bool) (run : AdaptiveRun V E) : ℕ :=
  ∑ number ∈ Finset.range (run.current + 1), run.room counts number

/-- Whatever task is started next, those beside it fit into a new limit, as far
as the semaphores let them in. -/
def FitsInto (run : AdaptiveRun V E) (concurrency : ℕ) : Prop :=
  ∀ task, 0 < run.unstarted (· == task) →
    (∑ number ∈ Finset.range (run.current + 1), min (run.semaphores number).size
      ((run.semaphores number).load (beside processor items task))) +
      min concurrency (run.created.countP (beside processor items task)) ≤ concurrency

/-- The condition on the state in which a processor has ended, if the end
replaces the semaphore. -/
def Roomy (config : BackpressureConfig) (run : AdaptiveRun V E)
    (pick : AdaptivePick × ℚ) : Prop :=
  ∀ reached events number index outcome, run.proceed processor items pick.1 =
      some (reached, events, some (number, index, outcome)) →
    ∀ concurrency, (reached.record index outcome pick.2).adapted? config = some concurrency →
    (reached.leave number index).FitsInto processor items concurrency

/-- Each task is somewhere at most, the processors in flight last, but for the
one which has just ended, and whatever task is started next, those beside it fit
into the limit. -/
structure Contained (ended : Option ℕ) (run : AdaptiveRun V E) : Prop where
  once : ∀ task, run.unstarted (· == task) + run.held (· == task) ≤ 1
  lasting : ∀ task, 0 < run.held (· == task) →
    lasts processor items task = true ∨ ended = some task
  fits : ∀ task, 0 < run.unstarted (· == task) →
    run.demand (beside processor items task) ≤ run.concurrency

end Limit

variable {number index : ℕ} {started left : List ℕ} {ended before : Option ℕ}
  {next : AdaptiveRun V E}

/-- A move lets in no more tasks. -/
theorem Moves.demand_le (hmoves : run.Moves number started left next)
    (counts : ℕ → Bool) : next.demand counts ≤ run.demand counts := by
  obtain ⟨-, created, semaphore, rfl, hsize, hplace, hcounts⟩ := hmoves.spec
  obtain ⟨hcreated, hqueued, hholders⟩ := hcounts counts
  refine Finset.sum_le_sum fun other _ => ?_
  by_cases hother : other = number
  · subst hother
    simp only [room, move, setSemaphore, Function.update_self, hsize, TaskSemaphore.load]
    apply min_le_min_left
    rcases hplace with hcurrent | hsame
    · simp only [hcurrent, if_true] at hqueued hholders ⊢
      omega
    · simp only [hsame] at hqueued ⊢
      omega
  · have hothers : (if other = run.current then created.countP counts else 0) ≤
        if other = run.current then run.created.countP counts else 0 := by
      split
      · exact hcreated
      · exact Nat.le_refl _
    simp only [room, move, setSemaphore, Function.update_of_ne hother]
    exact min_le_min_left _ (Nat.add_le_add_left hothers _)

namespace Contained

theorem start (config : BackpressureConfig) :
    Contained processor items none (AdaptiveRun.start config items) := by
  refine ⟨fun task => ?_, fun task hheld => ?_, fun task _ => ?_⟩
  · have honce := nodup_iff_count_le_one.mp (@nodup_range items.length) task
    simpa [unstarted, held, sum, AdaptiveRun.start, TaskSemaphore.queued, List.count]
      using honce
  · simp [held, sum, AdaptiveRun.start] at hheld
  · simp [demand, room, TaskSemaphore.size, AdaptiveRun.start]

/-- What a move lets in lasts, or ends at once, and what has ended goes out. -/
theorem move (h : Contained processor items before run)
    (hmoves : run.Moves number started left next)
    (hended : ∀ task ∈ started, lasts processor items task = true ∨ ended = some task)
    (hbefore : ∀ task, before = some task → task ∈ left) :
    Contained processor items ended next := by
  have hcount : ∀ {task : ℕ} {tasks : List ℕ}, task ∈ tasks ↔ 0 < tasks.countP (· == task) := by
    intro task tasks
    simp [countP_pos_iff]
  refine ⟨fun task => ?_, fun task hheld => ?_, fun task hunstarted => ?_⟩
  · have hmoved := hmoves.held (· == task)
    have honce := h.once task
    rw [← hmoves.unstarted] at honce
    omega
  · have hmoved := hmoves.held (· == task)
    have honce := h.once task
    rw [← hmoves.unstarted] at honce
    by_cases hstarted : task ∈ started
    · exact hended task hstarted
    · rw [hcount] at hstarted
      rcases h.lasting task (by omega) with hlasts | hsame
      · exact .inl hlasts
      · have hleft := hcount.mp (hbefore task hsame)
        omega
  · rw [hmoves.same.2.1]
    exact Nat.le_trans (hmoves.demand_le _) (h.fits task
      (by rw [← hmoves.unstarted]; exact Nat.add_pos_left hunstarted _))

theorem holders_countP (h : Contained processor items none run) (task : ℕ)
    (hnumber : number ≤ run.current) :
    (run.semaphores number).holders.countP (beside processor items task) =
      (run.semaphores number).holders.length := by
  rw [countP_eq_length]
  intro other hmem
  have hpos : 0 < (run.semaphores number).holders.countP (· == other) :=
    countP_pos_iff.mpr ⟨other, hmem, beq_self_eq_true other⟩
  have hheld := le_sum (fun semaphore => semaphore.holders.countP (· == other)) hnumber
  rcases h.lasting other (lt_of_lt_of_le hpos hheld) with
    hlasts | hnone
  · simp [beside, hlasts]
  · cases hnone

theorem adapt (h : Contained processor items none run)
    (hfits : ∀ concurrency, run.adapted? config = some concurrency →
      run.FitsInto processor items concurrency) :
    Contained processor items none (run.adapt config) := by
  cases hadapted : run.adapted? config with
  | none =>
    rw [adapt_of_none hadapted]
    exact h
  | some concurrency =>
    refine ⟨fun task => ?_, fun task hpos => ?_, fun task hpos => ?_⟩
    · rw [unstarted_adapt, held_adapt]
      exact h.once task
    · rw [held_adapt] at hpos
      exact h.lasting task hpos
    · rw [unstarted_adapt] at hpos
      refine Nat.le_trans (Nat.le_of_eq ?_) (Nat.le_trans (hfits _ hadapted task hpos)
        (Nat.le_of_eq ?_))
      · rw [adapt_of_some hadapted, demand, Finset.sum_range_succ]
        congr 1
        · apply Finset.sum_congr rfl
          intro other hmem
          have hother := (Finset.mem_range.mp hmem).ne
          simp only [room, setSemaphore, Function.update_of_ne hother, hother, if_false,
            Nat.add_zero]
        · simp [room, setSemaphore, TaskSemaphore.size, TaskSemaphore.load,
            TaskSemaphore.queued]
      · rw [adapt_of_some hadapted]

/-- A processor is started below the limit: the semaphore has room for it beside
those inside, and the others for theirs. -/
theorem inFlight_lt (h : Contained processor items none run)
    (hmoves : run.Moves number [index] left next) : run.inFlight < run.concurrency := by
  have hbeside : beside processor items index index = true := by simp [beside]
  have hroom : ∀ other ≤ run.current, (run.semaphores other).holders.length ≤
      run.room (beside processor items index) other := by
    intro other hother
    have hcount : (run.semaphores other).holders.countP
      (beside processor items index) = _ := h.holders_countP index hother
    refine le_min (Nat.le_add_left _ _) ?_
    simp only [TaskSemaphore.load]
    omega
  have hunstarted : 0 < run.unstarted (· == index) := by
    rw [← hmoves.unstarted, countP_singleton, beq_self_eq_true]
    exact Nat.succ_pos _
  have hlets : (run.semaphores number).holders.length <
      run.room (beside processor items index) number := by
    have hholders := h.holders_countP index hmoves.number_le
    rw [room, lt_min_iff]
    cases hmoves with
    | arrived hcreated hlocked =>
      have hvalue : (run.semaphores run.current).value ≠ 0 := by
        intro hzero
        simp [TaskSemaphore.locked, hzero] at hlocked
      have hpos := countP_pos_iff.mpr ⟨index, hcreated, hbeside⟩
      simp only [if_true, TaskSemaphore.load, TaskSemaphore.size, hholders]
      omega
    | resumed hnumber hwoken =>
      have hpos := countP_pos_iff.mpr ⟨index, hwoken, hbeside⟩
      have hlength := length_pos_of_mem hwoken
      simp only [TaskSemaphore.load, TaskSemaphore.queued, TaskSemaphore.size, hholders]
      omega
  refine lt_of_lt_of_le ?_ (h.fits index hunstarted)
  unfold inFlight sum demand
  apply Finset.sum_lt_sum
  · exact fun other hmem => hroom other (Nat.lt_succ_iff.mp (Finset.mem_range.mp hmem))
  · exact ⟨number, Finset.mem_range.mpr (Nat.lt_succ_of_le hmoves.number_le), hlets⟩

theorem advance (h : Contained processor items none run) {pick : AdaptivePick × ℚ}
    {events : List (Started I)} (hroomy : Roomy processor items config run pick)
    (hadvance : run.advance config processor items pick = some (next, events)) :
    Contained processor items none next ∧
      ∀ started ∈ events, started.inFlight < started.concurrency := by
  obtain ⟨⟨reached, made, ended⟩, hproceed, hsame⟩ := Option.map_eq_some_iff.mp hadvance
  obtain ⟨hends, hcases⟩ := proceed_cases hproceed
  have hreached : Contained processor items (ended.map fun ending => ending.2.1) reached ∧
      ∀ started ∈ made, started.inFlight < started.concurrency := by
    rcases hcases with ⟨number, hmoves, rfl, rfl⟩ |
      ⟨number, index, task, hmoves, htask, rfl, rfl⟩ | ⟨rfl, rfl, hended⟩
    · exact ⟨h.move hmoves (by simp) (by simp), by simp⟩
    · refine ⟨h.move hmoves (fun other hmem => ?_) (by simp), fun started hmem => ?_⟩
      · rw [mem_singleton.mp hmem]
        cases hsuspends : (processor task).suspends with
        | true => exact .inl (by simp [lasts, htask, hsuspends])
        | false => exact .inr rfl
      · rw [mem_singleton.mp hmem]
        exact h.inFlight_lt hmoves
    · refine ⟨⟨h.once, fun task hheld => ?_, h.fits⟩, by simp⟩
      exact (h.lasting task hheld).imp_right fun hnone => by cases hnone
  cases ended with
  | none =>
    cases hsame
    exact hreached
  | some ending =>
    obtain ⟨number, index, outcome⟩ := ending
    cases hsame
    obtain ⟨hnumber, hindex, -⟩ := hends _ rfl
    have hleft : Contained processor items none (reached.leave number index) :=
      hreached.1.move (.left hnumber hindex) (by simp) (by simp)
    have hrecorded : Contained processor items none
      ((reached.leave number index).record index outcome pick.2) :=
      ⟨hleft.once, hleft.lasting, hleft.fits⟩
    refine ⟨?_, hreached.2⟩
    show Contained _ _ _ (reached.complete config number index outcome pick.2)
    rw [complete_eq config reached index outcome pick.2 hnumber]
    exact hrecorded.adapt (hroomy reached made number index outcome hproceed)

end Contained

end AdaptiveRun

end PyFly.Transactional
