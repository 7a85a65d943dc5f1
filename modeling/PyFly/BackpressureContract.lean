import PyFly.AdaptiveBackpressure

/-!
# The contract of the backpressure strategies

The results come in the order of the items, and no item is processed twice.  A
processor which raises before it returns an awaitable is an error of its item
for two of the strategies, and of the whole call for the batched one.
-/

namespace PyFly.Transactional

open Library List

variable {I V E : Type}

def produced (processor : Processor I V E) (items : List I) : List (Except E V) :=
  (enumerated items).map fun task => (processor task).outcome

/-- An `apply` in which tasks take turns: in every run no item is processed
twice, and what is returned are the `expected` results; every run can go on to
its return. -/
structure Applies {σ π ε γ : Type} (machine : Machine σ π ε) (initial : σ)
    (task : ε → ℕ × I) (items : List I) (returned? : σ → Option (List γ))
    (expected : List γ) : Prop where
  once : ∀ schedule, ((machine.run initial schedule).trace.map task).Nodup
  ofItems : ∀ schedule, ∀ event ∈ (machine.run initial schedule).trace,
    task event ∈ enumerated items
  inOrder : ∀ schedule results,
    returned? (machine.run initial schedule).state = some results → results = expected
  returns : ∀ schedule, ∃ more,
    (returned? (machine.run initial (schedule ++ more)).state).isSome = true

def BatchedRun.returned? (run : BatchedRun V E) : Option (List (Except E V)) :=
  run.reply.bind Except.toOption

structure KeepsContract (config : BackpressureConfig) (clock : ℕ → ℚ)
    (processor : Processor I V E) (render : I → String) (items : List I) : Prop where
  adaptive : Applies (adaptiveMachine config processor items)
    (AdaptiveRun.start config items) Started.task items AdaptiveRun.returned?
    ((produced processor items).map some)
  batched : Applies (batchedMachine config processor items) ⟨0, [], [], none⟩ id items
    BatchedRun.returned? (produced processor items)
  breaker : (breakerTurns config clock processor render items).map BreakerTurn.task =
        enumerated items ∧
      ∀ turn ∈ breakerTurns config clock processor render items,
        turn.entry = .produced (processor turn.task).outcome ∨
          ∃ message, turn.entry = .rejected message ∧ turn.calledAt = none

variable {config : BackpressureConfig} {clock : ℕ → ℚ} {processor : Processor I V E}
  {render : I → String} {items : List I}

theorem getElem?_enumerated (items : List I) (index : ℕ) :
    (enumerated items)[index]? = items[index]?.map fun item => (index, item) := by
  simp [enumerated]

theorem exists_item_of_enumerated {index : ℕ} {task : ℕ × I}
    (htask : (enumerated items)[index]? = some task) :
    index < items.length ∧ task.1 = index := by
  rw [getElem?_enumerated] at htask
  obtain ⟨item, hitem, rfl⟩ := Option.map_eq_some_iff.mp htask
  exact ⟨(List.getElem?_eq_some_iff.mp hitem).1, rfl⟩

theorem nodup_enumerated (items : List I) : (enumerated items).Nodup := by
  refine Nodup.of_map Prod.fst ?_
  have hindices : (enumerated items).map Prod.fst = range items.length := by
    simp [enumerated, mapIdx_eq_zipIdx_map, Function.comp_def, range_eq_range']
  exact hindices ▸ nodup_range

/-- An invariant which no step breaks, and a rank which each step lowers, until
the results are returned. -/
theorem Applies.of_invariant {σ π ε γ : Type} {machine : Machine σ π ε} {initial : σ}
    {task : ε → ℕ × I} {returned? : σ → Option (List γ)} {expected : List γ}
    (Good : σ → List ε → Prop) (rank : σ → ℕ) (hinitial : Good initial [])
    (hstep : ∀ state trace pick next events, Good state trace →
      machine.step state pick = some (next, events) →
      Good next (trace ++ events) ∧ rank next < rank state)
    (hprogress : ∀ state trace, Good state trace → returned? state = none →
      ∃ pick next events, machine.step state pick = some (next, events))
    (honce : ∀ state trace, Good state trace → (trace.map task).Nodup ∧
      ∀ event ∈ trace, task event ∈ enumerated items)
    (hresults : ∀ state trace results, Good state trace →
      returned? state = some results → results = expected) :
    Applies machine initial task items returned? expected := by
  have hgood : ∀ schedule, Good (machine.run initial schedule).state
      (machine.run initial schedule).trace :=
    Machine.run_invariant Good hinitial fun state trace pick next events hgood hnext =>
      (hstep state trace pick next events hgood hnext).1
  refine ⟨fun schedule => (honce _ _ (hgood schedule)).1,
    fun schedule => (honce _ _ (hgood schedule)).2,
    fun schedule results => hresults _ _ results (hgood schedule), fun schedule => ?_⟩
  obtain ⟨more, -, hfinal⟩ := Machine.exists_schedule_to_final Good
    (fun state => (returned? state).isSome = true) (fun _ => True) rank
    (fun state trace pick next events hgood _ hnext =>
      hstep state trace pick next events hgood hnext)
    (fun state trace hgood hrunning => by
      obtain ⟨pick, next, events, hnext⟩ :=
        hprogress state trace hgood (by simpa using hrunning)
      exact ⟨pick, next, events, trivial, hnext⟩)
    (machine.run initial schedule) (hgood schedule)
  refine ⟨more, ?_⟩
  rw [Machine.run, Machine.runFrom_append]
  exact hfinal

theorem turns_keep (tasks : List (ℕ × I)) (state : BreakerState) :
    (state.turns config clock processor render tasks).map BreakerTurn.task = tasks ∧
      ∀ turn ∈ state.turns config clock processor render tasks,
        turn.entry = .produced (processor turn.task).outcome ∨
          ∃ message, turn.entry = .rejected message ∧ turn.calledAt = none := by
  induction tasks generalizing state with
  | nil => exact ⟨rfl, by simp [BreakerState.turns]⟩
  | cons task rest ih =>
    have hturn : (state.turn config clock processor render task).task = task ∧
        ((state.turn config clock processor render task).entry =
            .produced (processor task).outcome ∨
          ∃ message, (state.turn config clock processor render task).entry = .rejected message ∧
            (state.turn config clock processor render task).calledAt = none) := by
      unfold BreakerState.turn
      split
      · split
        · exact ⟨rfl, .inl rfl⟩
        · exact ⟨rfl, .inr ⟨_, rfl, rfl⟩⟩
      · exact ⟨rfl, .inl rfl⟩
    have hrest := ih (state.turn config clock processor render task).after
    refine ⟨?_, fun turn hmem => ?_⟩
    · rw [BreakerState.turns, map_cons, hturn.1, hrest.1]
    · rcases mem_cons.mp hmem with rfl | hlater
      · rw [hturn.1]
        exact hturn.2
      · exact hrest.2 turn hlater

namespace BatchedRun

/-- No call of the processor raises. -/
def Willing (processor : Processor I V E) (tasks : List (ℕ × I)) : Prop :=
  ∀ task ∈ tasks, ∀ error, processor task ≠ .refused error

theorem called_of_callAll (tasks : List (ℕ × I)) : (callAll processor tasks).1 <+: tasks := by
  induction tasks with
  | nil => exact prefix_rfl
  | cons task rest ih =>
    unfold callAll
    split
    · exact ⟨rest, rfl⟩
    · exact cons_prefix_cons.mpr ⟨rfl, ih⟩

theorem callAll_cases (processor : Processor I V E) (tasks : List (ℕ × I)) :
    (Willing processor tasks ∧ callAll processor tasks = (tasks, .ok (tasks.map processor))) ∨
    ¬ Willing processor tasks ∧ ∃ error, (callAll processor tasks).2 = .error error := by
  induction tasks with
  | nil => exact .inl ⟨by simp [Willing], rfl⟩
  | cons task rest ih =>
    cases hcall : processor task with
    | refused error =>
      refine .inr ⟨fun hwilling => hwilling task mem_cons_self error hcall, error, ?_⟩
      rw [callAll, hcall]
    | awaited suspends outcome =>
      rcases ih with ⟨hrest, hcalls⟩ | ⟨hrest, error, hcalls⟩
      · refine .inl ⟨fun other hmem => ?_, ?_⟩
        · rcases mem_cons.mp hmem with rfl | hlater
          · simp [hcall]
          · exact hrest other hlater
        · simp only [callAll, hcall, hcalls, map_cons]
          rfl
      · refine .inr ⟨fun hwilling => hrest fun other hmem =>
          hwilling other (mem_cons_of_mem _ hmem), error, ?_⟩
        simp only [callAll, hcall, hcalls]
        rfl

structure Kept (processor : Processor I V E) (items : List I) (run : BatchedRun V E)
    (trace : List (ℕ × I)) : Prop where
  calls : trace <+: enumerated items
  running : run.reply = none →
    trace = (enumerated items).take run.next ∧ Willing processor trace ∧
      run.results ++ run.batch.map (fun ended => ended.1.outcome) =
        trace.map fun task => (processor task).outcome
  returned : ∀ results, run.reply = some (.ok results) →
    Willing processor (enumerated items) ∧ results = produced processor items
  raised : ∀ error, run.reply = some (.error error) → ¬ Willing processor (enumerated items)

def rank (items : List I) (run : BatchedRun V E) : ℕ :=
  2 * (items.length - run.next) + run.batch.countP (!·.2) + if run.reply.isNone then 1 else 0

theorem Kept.openBatch {run : BatchedRun V E} {trace : List (ℕ × I)}
    (hkept : run.Kept processor items trace) (hbatch : 1 ≤ config.batchSize)
    (hreply : run.reply = none) (hended : run.batch.countP (!·.2) = 0) :
    (openBatch config processor items run.next
        (run.results ++ run.batch.map fun ended => ended.1.outcome)).1.Kept processor items
        (trace ++ (openBatch config processor items run.next
          (run.results ++ run.batch.map fun ended => ended.1.outcome)).2) ∧
      (openBatch config processor items run.next
        (run.results ++ run.batch.map fun ended => ended.1.outcome)).1.rank items <
        run.rank items := by
  obtain ⟨htrace, hwilling, hresults⟩ := hkept.running hreply
  have hlength : (enumerated items).length = items.length := by simp [enumerated]
  have hrank : run.rank items = 2 * (items.length - run.next) + 1 := by
    simp [rank, hreply, hended]
  rw [hresults, hrank]
  unfold BatchedRun.openBatch
  split
  · rename_i hdone
    have hall : trace = enumerated items := htrace.trans (take_of_length_le (by omega))
    refine ⟨⟨?_, by simp, fun results hsame => ?_, by simp⟩, by simp [rank]⟩
    · simpa using hkept.calls
    · cases hsame
      exact ⟨hall ▸ hwilling, hall ▸ rfl⟩
  · rename_i hmore
    have hnext : trace ++ ((enumerated items).drop run.next).take config.batchSize =
        (enumerated items).take (run.next + config.batchSize) := by
      rw [htrace, ← take_add]
    rcases callAll_cases processor
        (((enumerated items).drop run.next).take config.batchSize) with
      ⟨hnew, hcalls⟩ | ⟨hrefused, error, hcalls⟩
    · simp only [hcalls]
      refine ⟨⟨hnext ▸ take_prefix _ _, fun _ => ⟨hnext, ?_, ?_⟩, by simp, by simp⟩, ?_⟩
      · intro task hmem
        rcases mem_append.mp hmem with hold | hlater
        · exact hwilling task hold
        · exact hnew task hlater
      · simp [map_append, Function.comp_def]
      · have hunended := @countP_le_length _ (fun ended : Processing V E × Bool => !ended.2)
          (((((enumerated items).drop run.next).take config.batchSize).map
            processor).map fun awaitable => (awaitable, false))
        simp only [length_map, length_take, length_drop, hlength] at hunended
        simp only [rank, Option.isNone_none, if_true]
        omega
    · simp only [hcalls]
      refine ⟨⟨?_, by simp, by simp, fun _ _ hwilling => hrefused fun task hmem => ?_⟩,
        by simp [rank]⟩
      · refine IsPrefix.trans ?_ (hnext ▸ take_prefix _ _)
        exact (prefix_append_right_inj _).mpr (called_of_callAll _)
      · exact hwilling task (mem_of_mem_drop (mem_of_mem_take hmem))

theorem Kept.step {run next : BatchedRun V E} {trace events : List (ℕ × I)}
    {pick : Option ℕ} (hkept : run.Kept processor items trace)
    (hbatch : 1 ≤ config.batchSize)
    (hstep : run.advance config processor items pick = some (next, events)) :
    next.Kept processor items (trace ++ events) ∧ next.rank items < run.rank items := by
  cases pick with
  | none =>
    rw [advance] at hstep
    split at hstep
    · rename_i hready
      have hopened := hkept.openBatch hbatch (by simpa using hready.1)
        (by simpa [countP_eq_zero] using hready.2)
      rw [Option.some.inj hstep] at hopened
      exact hopened
    · cases hstep
  | some index =>
    rw [advance] at hstep
    split at hstep
    · rename_i awaitable hawaited
      obtain ⟨rfl, rfl⟩ := Prod.mk.inj (Option.some.inj hstep)
      obtain ⟨hindex, hsame⟩ := List.getElem?_eq_some_iff.mp hawaited
      have houtcomes : (run.batch.set index (awaitable, true)).map
          (fun ended => ended.1.outcome) = run.batch.map fun ended => ended.1.outcome := by
        have hset := set_getElem_self hindex
        rw [hsame] at hset
        conv_rhs => rw [← hset]
        simp only [map_set]
      have hless : (run.batch.set index (awaitable, true)).countP (!·.2) <
          run.batch.countP (!·.2) := by
        have hpos : 0 < run.batch.countP (!·.2) :=
          countP_pos_iff.mpr ⟨_, mem_of_getElem? hawaited, rfl⟩
        rw [countP_set hindex, hsame]
        simp only [Bool.not_false, Bool.not_true, if_true, Bool.false_eq_true, if_false]
        omega
      rw [append_nil]
      refine ⟨⟨hkept.calls, fun hreply => ?_, hkept.returned, hkept.raised⟩, ?_⟩
      · rw [houtcomes]
        exact hkept.running hreply
      · exact Nat.add_lt_add_right (Nat.add_lt_add_left hless _) _
    · cases hstep

end BatchedRun

theorem batched_applies (hbatch : 1 ≤ config.batchSize)
    (hwilling : BatchedRun.Willing processor (enumerated items)) :
    Applies (batchedMachine config processor items) ⟨0, [], [], none⟩ id items
      BatchedRun.returned? (produced processor items) := by
  refine Applies.of_invariant (BatchedRun.Kept processor items) (BatchedRun.rank items)
    ⟨ nil_prefix, by simp [BatchedRun.Willing], by simp, by simp⟩
    (fun run trace pick next events hkept => hkept.step hbatch)
    (fun run trace hkept hrunning => ?_) (fun run trace hkept => ?_)
    fun run trace results hkept hreturned => ?_
  · cases hreply : run.reply with
    | some reply =>
      cases reply with
      | ok results => simp [BatchedRun.returned?, hreply, Except.toOption] at hrunning
      | error error => exact absurd hwilling (hkept.raised error hreply)
    | none =>
      by_cases hended : run.batch.all Prod.snd = true
      · exact ⟨none, _, _, if_pos ⟨by simp [hreply], hended⟩⟩
      · obtain ⟨⟨awaitable, ended⟩, hmem, hnot⟩ :
            ∃ ended ∈ run.batch, ended.2 = false := by simpa using hended
        obtain ⟨index, hindex⟩ := mem_iff_getElem?.mp hmem
        cases hnot
        exact ⟨some index, { run with batch := run.batch.set index (awaitable, true) }, [],
          by simp only [batchedMachine, BatchedRun.advance, hindex]⟩
  · rw [map_id]
    exact ⟨hkept.calls.sublist.nodup (nodup_enumerated items),
      fun task hmem => hkept.calls.subset hmem⟩
  · cases hreply : run.reply with
    | none => simp [BatchedRun.returned?, hreply] at hreturned
    | some reply =>
      cases reply with
      | error error => simp [BatchedRun.returned?, hreply, Except.toOption] at hreturned
      | ok returned =>
        rw [← (hkept.returned returned hreply).2]
        simpa [BatchedRun.returned?, hreply, Except.toOption, eq_comm] using hreturned

theorem willing_of_applies (hbatch : 1 ≤ config.batchSize)
    (happlies : Applies (batchedMachine config processor items) ⟨0, [], [], none⟩ id items
      BatchedRun.returned? (produced processor items)) :
    BatchedRun.Willing processor (enumerated items) := by
  obtain ⟨more, hreturned⟩ := happlies.returns []
  have hkept : BatchedRun.Kept processor items
      ((batchedMachine config processor items).run ⟨0, [], [], none⟩ more).state _ :=
    Machine.run_invariant (BatchedRun.Kept processor items)
      ⟨ nil_prefix, by simp [BatchedRun.Willing], by simp, by simp⟩
      (fun run trace pick next events hkept hstep => (hkept.step hbatch hstep).1) more
  obtain ⟨results, hresults⟩ := Option.isSome_iff_exists.mp hreturned
  obtain ⟨reply, hreply, hok⟩ := Option.bind_eq_some_iff.mp hresults
  cases reply with
  | ok results => exact (hkept.returned results hreply).1
  | error error => cases hok

namespace TaskSemaphore

/-- There are permits, and a free one only where somebody has been woken, or
nobody waits. -/
structure Live (semaphore : TaskSemaphore) : Prop where
  size : 1 ≤ semaphore.size
  handed : semaphore.value = 0 ∨ semaphore.pending = [] ∨ semaphore.woken ≠ []

def weight (semaphore : TaskSemaphore) : ℕ :=
  3 * semaphore.pending.length + 2 * semaphore.woken.length + semaphore.holders.length

theorem wakeUp_hands (value : ℕ) (pending woken holders : List ℕ) :
    ((wakeUp value pending woken holders).value = 0 ∨
        (wakeUp value pending woken holders).pending = []) ∧
      (wakeUp value pending woken holders).weight ≤
        3 * pending.length + 2 * woken.length + holders.length := by
  fun_induction wakeUp value pending woken holders with
  | case1 value next pending woken holders ih =>
    refine ⟨ih.1, ih.2.trans ?_⟩
    simp only [length_append, length_cons, length_nil]
    omega
  | case2 value pending woken holders hstop =>
    refine ⟨?_, Nat.le_refl _⟩
    cases value with
    | zero => exact .inl rfl
    | succ value =>
      cases pending with
      | nil => exact .inr rfl
      | cons next rest => exact (hstop value next rest rfl rfl).elim

end TaskSemaphore

namespace AdaptiveRun

def rank (run : AdaptiveRun V E) : ℕ :=
  4 * run.created.length + run.sum TaskSemaphore.weight

variable {run next reached : AdaptiveRun V E} {number index : ℕ} {started left : List ℕ}
  {trace : List (Started I)}

/-- A move goes on from a semaphore to a live one, and it is a step forward. -/
theorem Moves.forward (hmoves : run.Moves number started left next)
    (hlive : ∀ number ≤ run.current, (run.semaphores number).Live) :
    (∀ number ≤ next.current, (next.semaphores number).Live) ∧ next.rank < run.rank := by
  have hmoved : ∃ created semaphore, next = run.move number created semaphore ∧
      (semaphore.value = 0 ∨ semaphore.pending = [] ∨ semaphore.woken ≠ []) ∧
      4 * created.length + semaphore.weight <
        4 * run.created.length + (run.semaphores number).weight := by
    have hhanded := (hlive number hmoves.number_le).handed
    cases hmoves with
    | parked hcreated hlocked =>
      refine ⟨_, _, rfl, ?_, ?_⟩
      · simp only [TaskSemaphore.wait]
        simp [TaskSemaphore.locked] at hlocked
        tauto
      · have hpos := length_pos_of_mem hcreated
        simp only [TaskSemaphore.wait, TaskSemaphore.weight, length_append, length_cons,
          length_nil, length_erase_of_mem hcreated]
        omega
    | arrived hcreated hlocked =>
      refine ⟨_, _, rfl, ?_, ?_⟩
      · simp [TaskSemaphore.locked] at hlocked
        exact .inr (.inl hlocked.1.2)
      · have hpos := length_pos_of_mem hcreated
        simp only [TaskSemaphore.take, TaskSemaphore.weight, length_cons,
          length_erase_of_mem hcreated]
        omega
    | @resumed _ index hnumber hwoken =>
      have hwakes := TaskSemaphore.wakeUp_hands (run.semaphores number).value
        (run.semaphores number).pending ((run.semaphores number).woken.erase index)
        (index :: (run.semaphores number).holders)
      refine ⟨_, _, rfl, hwakes.1.imp_right .inl, Nat.add_lt_add_left ?_ _⟩
      have hpos := length_pos_of_mem hwoken
      refine Nat.lt_of_le_of_lt hwakes.2 ?_
      simp only [TaskSemaphore.weight, length_cons, length_erase_of_mem hwoken]
      omega
    | left hnumber hholder =>
      refine ⟨_, _, rfl, ?_, Nat.add_lt_add_left ?_ _⟩
      · unfold TaskSemaphore.release
        split
        · rename_i hpending
          exact .inr (.inl hpending)
        · simp
      · have hpos := length_pos_of_mem hholder
        unfold TaskSemaphore.release
        split <;> rename_i hpending <;> simp only [TaskSemaphore.weight, hpending,
          length_append, length_cons, length_nil, length_erase_of_mem hholder] <;> omega
  obtain ⟨hnumber, _, moved, hspec, hsize, -⟩ := hmoves.spec
  obtain ⟨created, semaphore, rfl, hhanded, hless⟩ := hmoved
  have hsemaphore : semaphore = moved := by
    simpa [move, setSemaphore] using congrArg (·.semaphores number) hspec
  refine ⟨fun other hother => ?_, ?_⟩
  · by_cases hsame : other = number
    · subst hsame
      simp only [move, setSemaphore, Function.update_self]
      exact ⟨hsemaphore ▸ hsize.symm ▸ (hlive other hnumber).size, hhanded⟩
    · simp only [move, setSemaphore, Function.update_of_ne hsame]
      exact hlive other hother
  · have hsum := sum_setSemaphore { run with created := created } TaskSemaphore.weight
      hnumber semaphore
    simp only [rank, move, setSemaphore, sum] at hsum ⊢
    omega

theorem adapt_keeps (hlive : ∀ number ≤ run.current, (run.semaphores number).Live)
    (hlimit : 1 ≤ run.concurrency) :
    (∀ number ≤ (run.adapt config).current, ((run.adapt config).semaphores number).Live) ∧
      1 ≤ (run.adapt config).concurrency ∧ (run.adapt config).results = run.results := by
  cases hadapted : run.adapted? config with
  | none =>
    rw [adapt_of_none hadapted]
    exact ⟨hlive, hlimit, rfl⟩
  | some concurrency =>
    have hpositive : 1 ≤ concurrency := by
      unfold adapted? at hadapted
      dsimp only at hadapted
      split at hadapted
      · cases hadapted
      · split at hadapted
        · exact Option.some.inj hadapted ▸ le_max_left _ _
        · split at hadapted
          · exact Option.some.inj hadapted ▸ Nat.le_add_left _ _
          · cases hadapted
    rw [adapt_of_some hadapted]
    refine ⟨fun number hnumber => ?_, hpositive, rfl⟩
    by_cases hnew : number = run.current + 1
    · subst hnew
      simp only [setSemaphore, Function.update_self]
      exact ⟨by simpa [TaskSemaphore.size] using hpositive, .inr (.inl rfl)⟩
    · simp only [setSemaphore, Function.update_of_ne hnew]
      exact hlive number (Nat.le_of_lt_succ (Nat.lt_of_le_of_ne hnumber hnew))

/-- Each position of the list is once among the tasks to come and the calls,
only tasks whose processors were called are inside, and what is not yet written
into the results has still to end. -/
structure Kept (processor : Processor I V E) (items : List I) (run : AdaptiveRun V E)
    (trace : List (Started I)) : Prop where
  count : ∀ index, run.unstarted (· == index) + trace.countP (·.task.1 == index) =
    (range items.length).countP (· == index)
  held : ∀ index, run.held (· == index) ≤ trace.countP (·.task.1 == index)
  ofItems : ∀ started ∈ trace, started.task ∈ enumerated items
  length : run.results.length = items.length
  results : ∀ index task, (enumerated items)[index]? = some task →
    0 < run.unstarted (· == index) + run.held (· == index) ∨
      run.results[index]? = some (some (processor task).outcome)
  live : ∀ number ≤ run.current, (run.semaphores number).Live
  limit : 1 ≤ run.concurrency

namespace Kept

variable (processor) (items)

theorem start (hconcurrency : 1 ≤ config.concurrency) :
    Kept processor items (AdaptiveRun.start config items : AdaptiveRun V E) [] := by
  refine ⟨fun index => ?_, fun index => ?_, by simp, by simp [AdaptiveRun.start],
    fun index task htask => ?_, fun number _ => ?_, hconcurrency⟩
  · simp [AdaptiveRun.start, unstarted, sum, TaskSemaphore.queued]
  · simp [AdaptiveRun.start, AdaptiveRun.held, sum]
  · have hindex := (exists_item_of_enumerated htask).1
    have hpos : 0 < (range items.length).countP (· == index) :=
      countP_pos_iff.mpr ⟨index, mem_range.mpr hindex, beq_self_eq_true index⟩
    exact .inl (Nat.add_pos_left (Nat.add_pos_left hpos _) _)
  · exact ⟨by simpa [AdaptiveRun.start, TaskSemaphore.size] using hconcurrency, .inr (.inl rfl)⟩

variable {processor items}

theorem move (hkept : run.Kept processor items trace)
    (hmoves : run.Moves number started [] next) {events : List (Started I)}
    (hstarted : started = events.map (·.task.1))
    (hitems : ∀ started ∈ events, started.task ∈ enumerated items) :
    next.Kept processor items (trace ++ events) := by
  have hevents : ∀ index, events.countP (·.task.1 == index) = started.countP (· == index) := by
    intro index
    rw [hstarted, countP_map]
    rfl
  obtain ⟨hcurrent, hconcurrency, hsame⟩ := hmoves.same
  refine ⟨fun index => ?_, fun index => ?_, ?_, hsame ▸ hkept.length,
    fun index task htask => ?_, (hmoves.forward hkept.live).1, hconcurrency ▸ hkept.limit⟩
  · have hmoved := hmoves.unstarted (· == index)
    rw [countP_append, hevents, ← hkept.count, ← hmoved]
    omega
  · have hmoved := hmoves.held (· == index)
    have hheld := hkept.held index
    rw [countP_append, hevents]
    simp only [countP_nil] at hmoved
    omega
  · exact forall_mem_append.mpr ⟨hkept.ofItems, hitems⟩
  · have hunstarted := hmoves.unstarted (· == index)
    have hheld := hmoves.held (· == index)
    simp only [countP_nil] at hheld
    rw [hsame]
    exact (hkept.results index task htask).imp_left fun hpos => by omega

theorem complete (config : BackpressureConfig) (hkept : run.Kept processor items trace)
    {ended : ℕ × ℕ × Except E V} (hended : run.Ends processor items ended)
    (elapsed : ℚ) :
    (run.complete config ended.1 ended.2.1 ended.2.2 elapsed).Kept processor items trace ∧
      (run.complete config ended.1 ended.2.1 ended.2.2 elapsed).rank < run.rank := by
  obtain ⟨hnumber, hholder, task, htask, houtcome⟩ := hended
  have hmoves : run.Moves ended.1 [] [ended.2.1] (run.leave ended.1 ended.2.1) :=
    .left hnumber hholder
  have hforward := hmoves.forward hkept.live
  have hadapt : _ ∧ _ ∧
      (((run.leave ended.1 ended.2.1).record ended.2.1 ended.2.2 elapsed).adapt
        config).results = run.results.set ended.2.1 (some ended.2.2) :=
    adapt_keeps hforward.1 hkept.limit
  have hunstarted : ∀ counts, (((run.leave ended.1 ended.2.1).record ended.2.1 ended.2.2
      elapsed).adapt config).unstarted counts = run.unstarted counts :=
    fun counts => (unstarted_adapt counts).trans (hmoves.unstarted counts)
  have hheld : ∀ counts, (((run.leave ended.1 ended.2.1).record ended.2.1 ended.2.2
      elapsed).adapt config).held counts + [ended.2.1].countP counts = run.held counts :=
    fun counts => (congrArg (· + _) (held_adapt counts)).trans (hmoves.held counts)
  rw [complete_eq config run ended.2.1 ended.2.2 elapsed hnumber]
  refine ⟨⟨fun index => ?_, fun index => ?_, hkept.ofItems, ?_, fun index task' htask' => ?_,
    hadapt.1, hadapt.2.1⟩, ?_⟩
  · rw [hunstarted]
    exact hkept.count index
  · exact (Nat.le.intro (hheld _)).trans (hkept.held index)
  · rw [hadapt.2.2, length_set]
    exact hkept.length
  · rw [hunstarted, hadapt.2.2]
    by_cases hsame : ended.2.1 = index
    · subst hsame
      obtain rfl := Option.some.inj (htask.symm.trans htask')
      have hindex := (exists_item_of_enumerated htask).1
      refine .inr ?_
      rw [getElem?_set_self (hkept.length.symm ▸ hindex), houtcome]
    · have hheld := hheld (· == index)
      rw [countP_singleton, if_neg (by simpa using hsame), Nat.add_zero] at hheld
      rw [getElem?_set_ne hsame, hheld]
      exact hkept.results index task' htask'
  · refine lt_of_eq_of_lt ?_ hforward.2
    rw [rank, created_adapt, sum_adapt config _ fun _ => rfl]
    rfl

theorem step (hkept : run.Kept processor items trace) {pick : AdaptivePick × ℚ}
    {events : List (Started I)}
    (hstep : run.advance config processor items pick = some (next, events)) :
    next.Kept processor items (trace ++ events) ∧ next.rank < run.rank := by
  obtain ⟨⟨reached, made, ended⟩, hproceed, hsame⟩ := Option.map_eq_some_iff.mp hstep
  obtain ⟨hends, hcases⟩ := proceed_cases hproceed
  have hreached : reached.Kept processor items (trace ++ made) ∧
      (reached.rank < run.rank ∨ reached = run ∧ ended ≠ none) := by
    rcases hcases with ⟨number, hmoves, rfl, rfl⟩ |
      ⟨number, index, task, hmoves, htask, rfl, -⟩ | ⟨rfl, rfl, hended⟩
    · exact ⟨hkept.move hmoves rfl (by simp), .inl (hmoves.forward hkept.live).2⟩
    · refine ⟨hkept.move hmoves ?_ fun started hmem => ?_, .inl (hmoves.forward hkept.live).2⟩
      · rw [map_singleton, (exists_item_of_enumerated htask).2]
      · rw [mem_singleton.mp hmem]
        exact mem_of_getElem? htask
    · exact ⟨(append_nil trace).symm ▸ hkept, .inr ⟨rfl, hended⟩⟩
  cases ended with
  | none =>
    cases hsame
    exact ⟨hreached.1, hreached.2.resolve_right fun hsame => hsame.2 rfl⟩
  | some ending =>
    cases hsame
    have hcomplete := complete config hreached.1 (hends ending rfl) pick.2
    refine ⟨hcomplete.1, hcomplete.2.trans_le ?_⟩
    rcases hreached.2 with hless | ⟨hsame, -⟩
    · exact hless.le
    · exact (congrArg rank hsame).le

/-- Where a task has not ended, some task can go on. -/
theorem progress (config : BackpressureConfig) (hkept : run.Kept processor items trace)
    (hrunning : run.unfinished ≠ 0) :
    ∃ pick, (run.advance config processor items pick).isSome = true := by
  have htask : ∀ index, 0 < run.unstarted (· == index) + run.held (· == index) →
      ∃ task, (enumerated items)[index]? = some task := by
    intro index hpos
    have hcount := hkept.count index
    have hheld := hkept.held index
    have hrange : 0 < (range items.length).countP (· == index) := by omega
    obtain ⟨other, hmem, hsame⟩ := countP_pos_iff.mp hrange
    rw [beq_iff_eq.mp hsame] at hmem
    rw [getElem?_enumerated, getElem?_eq_getElem (mem_range.mp hmem)]
    exact ⟨_, rfl⟩
  have hcounted : ∀ {tasks : List ℕ} {index : ℕ}, index ∈ tasks →
      0 < tasks.countP (· == index) :=
    fun hmem => countP_pos_iff.mpr ⟨_, hmem, beq_self_eq_true _⟩
  cases hcreated : run.created with
  | cons index rest =>
    have hmem : index ∈ run.created := hcreated ▸ mem_cons_self
    obtain ⟨task, htask⟩ := htask index
      (Nat.add_pos_left (Nat.add_pos_left (hcounted hmem) _) _)
    refine ⟨(.arrive index, 0), ?_⟩
    by_cases hlocked : (run.semaphores run.current).locked = true
    · simp [advance, proceed, hmem, hlocked]
    · simp [advance, proceed, enter, hmem, hlocked, htask]
  | nil =>
    rw [unfinished, hcreated, length_nil, Nat.zero_add] at hrunning
    obtain ⟨number, hmem, hnonzero⟩ := Finset.exists_ne_zero_of_sum_ne_zero hrunning
    have hnumber := Nat.lt_succ_iff.mp (Finset.mem_range.mp hmem)
    have hlive := hkept.live number hnumber
    cases hwoken : (run.semaphores number).woken with
    | cons index rest =>
      have hmem : index ∈ (run.semaphores number).woken := hwoken ▸ mem_cons_self
      have hpos : 0 < run.unstarted (· == index) :=
        Nat.add_pos_right _ ((Nat.add_pos_right _ (hcounted hmem)).trans_le
          (le_sum (TaskSemaphore.queued (· == index)) hnumber))
      obtain ⟨task, htask⟩ := htask index (Nat.add_pos_left hpos _)
      exact ⟨(.resume number index, 0), by
        simp [advance, proceed, enter, hnumber, hmem, htask]⟩
    | nil =>
      cases hholders : (run.semaphores number).holders with
      | cons index rest =>
        have hmem : index ∈ (run.semaphores number).holders := hholders ▸ mem_cons_self
        obtain ⟨task, htask⟩ := htask index (Nat.add_pos_right _ ((hcounted hmem).trans_le
            (le_sum (fun semaphore => semaphore.holders.countP (· == index)) hnumber)))
        exact ⟨(.finish number index, 0), by
          simp [advance, proceed, hnumber, hmem, htask]⟩
      | nil =>
        -- permits are left, so that whoever waits has been woken
        have hsize := hlive.size
        have hhanded := hlive.handed
        simp only [TaskSemaphore.size, hwoken, hholders, length_nil] at hsize hnonzero
        rcases hhanded with hvalue | hpending | hnone
        · omega
        · simp [hpending] at hnonzero
        · exact absurd hwoken hnone

theorem returned (hkept : run.Kept processor items trace) (hended : run.unfinished = 0) :
    run.results = (produced processor items).map some := by
  have hgone : ∀ index, run.unstarted (· == index) + run.held (· == index) = 0 := by
    intro index
    refine Nat.eq_zero_of_le_zero (hended ▸ ?_)
    rw [unstarted, AdaptiveRun.held, Nat.add_assoc, sum, sum, ← Finset.sum_add_distrib]
    refine Nat.add_le_add countP_le_length (Finset.sum_le_sum fun number _ => ?_)
    exact Nat.add_le_add (Nat.add_le_add countP_le_length countP_le_length) countP_le_length
  refine ext_getElem? fun index => ?_
  rw [produced, getElem?_map, getElem?_map]
  cases htask : (enumerated items)[index]? with
  | some task =>
    exact (hkept.results index task htask).resolve_left fun hpos =>
      absurd (hgone index) hpos.ne'
  | none =>
    have hlength : items.length ≤ index := by simpa [enumerated] using htask
    exact getElem?_eq_none (hkept.length.trans_le hlength)

end Kept

end AdaptiveRun

theorem adaptive_applies (hconcurrency : 1 ≤ config.concurrency) :
    Applies (adaptiveMachine config processor items)
      (AdaptiveRun.start config items) Started.task items AdaptiveRun.returned?
      ((produced processor items).map some) := by
  refine Applies.of_invariant (AdaptiveRun.Kept processor items) AdaptiveRun.rank
    (AdaptiveRun.Kept.start processor items hconcurrency)
    (fun run trace pick next events hkept => hkept.step)
    (fun run trace hkept hrunning => ?_) (fun run trace hkept => ⟨?_, ?_⟩)
    fun run trace results hkept hreturned => ?_
  · obtain ⟨pick, hpick⟩ := hkept.progress config fun hended => by
      simp [AdaptiveRun.returned?, hended] at hrunning
    obtain ⟨⟨next, events⟩, hnext⟩ := Option.isSome_iff_exists.mp hpick
    exact ⟨pick, next, events, hnext⟩
  · refine Nodup.of_map Prod.fst (nodup_iff_count_le_one.mpr fun index => ?_)
    rw [map_map, count, countP_map]
    have honce := nodup_iff_count_le_one.mp (@nodup_range items.length) index
    exact ((Nat.le_add_left _ _).trans (hkept.count index).le).trans honce
  · exact hkept.ofItems
  · unfold AdaptiveRun.returned? at hreturned
    split at hreturned
    · rename_i hended
      exact (Option.some.inj hreturned).symm.trans (hkept.returned hended)
    · cases hreturned

end PyFly.Transactional
