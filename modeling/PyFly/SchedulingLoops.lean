import PyFly.TaskScheduler

/-!
# The loops of a started scheduler

Cron and fixed-rate loops never look at the outcome of a job.  A fixed-delay
loop awaits its job, and an exception of the job ends it.
-/

namespace PyFly.Scheduling

open Library List

/-- No loop ends before `stop()` is called. -/
def LoopsGoOn (execution : Execution Scheduler Event) : Prop :=
  execution.state.stopping = .inactive →
    ∀ loop ∈ execution.state.loops, loop.phase.isEnded = false

def Trigger.HasNext (trigger : Trigger) (now : ℚ) : Prop :=
  match trigger with
  | .cron expr => (expr.secondsUntilNext now).isSome = true
  | _ => True

def Loop.Survives (loop : Loop) (outcome : ℕ → Option Outcome) (now : ℚ) :
    Prop :=
  match loop.phase with
  | .awaiting job => outcome job = some .returned
  | .created =>
    (∀ cron, loop.trigger = .cron cron → cron.valid = true) ∧ loop.trigger.HasNext now
  | .sleeping _ => loop.trigger.HasNext now
  | .ended _ => True

/-- A loop which takes a turn before `stop()` survives it. -/
def LoopSurvives (state : Scheduler) (pick : Pick) : Prop :=
  ∀ index now loop, pick = .loop index now → (schedulerMachine.step state pick).isSome = true →
      state.stopping = .inactive → state.loops[index]? = some loop →
        loop.Survives state.outcomeOf now

structure Undisturbed (execution : Execution Scheduler Event) : Prop where
  running : execution.state.stopping = .inactive → execution.state.running = true
  uncancelled : execution.state.stopping = .inactive →
    ∀ loop ∈ execution.state.loops, loop.cancelRequested = false
  awaiting : ∀ loop ∈ execution.state.loops, ∀ job,
    loop.phase = .awaiting job → ∃ delay, loop.trigger = .fixedDelay delay

variable {loop : Loop} {outcome : ℕ → Option Outcome} {now : ℚ} {job : ℕ}
  {phase : LoopPhase} {submits : Bool}

theorem cronSleep_isEnded (cron : Cron) (now : ℚ) :
    (cronSleep cron now).isEnded = false ↔ (Trigger.cron cron).HasNext now := by
  unfold cronSleep Trigger.HasNext
  cases hnext : cron.secondsUntilNext now <;> simp [hnext]

theorem afterSubmit_isEnded (trigger : Trigger) (now : ℚ) (job : ℕ) :
    (trigger.afterSubmit now job).isEnded = false ↔ trigger.HasNext now := by
  cases trigger with
  | cron expr => exact cronSleep_isEnded expr now
  | fixedRate rate => simp [Trigger.afterSubmit, Trigger.HasNext]
  | fixedDelay delay => simp [Trigger.afterSubmit, Trigger.HasNext]

theorem whileRunning_isEnded (loop : Loop) (now : ℚ) (job : ℕ) :
    (loop.whileRunning true now job).1.isEnded = false ↔ loop.trigger.HasNext now :=
  afterSubmit_isEnded loop.trigger now job

theorem begin_isEnded (loop : Loop) (now : ℚ) (job : ℕ) :
    (loop.begin true now job).1.isEnded = false ↔
      (∀ cron, loop.trigger = .cron cron → cron.valid = true) ∧ loop.trigger.HasNext now := by
  unfold Loop.begin
  cases htrigger : loop.trigger with
  | cron expr =>
    cases hvalid : expr.valid <;> simp [hvalid, cronSleep_isEnded]
  | fixedRate rate =>
    have hloop := whileRunning_isEnded loop now job
    rw [htrigger] at hloop
    cases hdelay : loop.initialDelay with
    | none => simp [hloop]
    | some delay =>
      by_cases hzero : delay = 0 <;> simp [hzero, hloop, Trigger.HasNext]
  | fixedDelay rate =>
    have hloop := whileRunning_isEnded loop now job
    rw [htrigger] at hloop
    cases hdelay : loop.initialDelay with
    | none => simp [hloop]
    | some delay =>
      by_cases hzero : delay = 0 <;> simp [hzero, hloop, Trigger.HasNext]

theorem turn_isEnded (hturn : loop.turn true outcome now job = some (phase, submits))
    (hawaiting : ∀ job, loop.phase = .awaiting job →
      ∃ delay, loop.trigger = .fixedDelay delay) :
    phase.isEnded = false ↔ loop.Survives outcome now := by
  unfold Loop.turn at hturn
  unfold Loop.Survives
  cases hphase : loop.phase with
  | ended how => simp [hphase] at hturn
  | created =>
    simp only [hphase, Option.some.injEq] at hturn
    rw [← begin_isEnded loop now job, hturn]
  | sleeping wake =>
    simp only [hphase] at hturn
    split at hturn
    · cases hturn
    · simp only [Option.some.injEq] at hturn
      rw [← whileRunning_isEnded loop now job, hturn]
  | awaiting awaited =>
    obtain ⟨delay, htrigger⟩ := hawaiting awaited hphase
    simp only [hphase, Option.map_eq_some_iff, Prod.mk.injEq] at hturn
    obtain ⟨result, houtcome, rfl, -⟩ := hturn
    cases result <;> simp [Loop.resume, htrigger, houtcome]

theorem turn_awaiting {running : Bool} {awaited : ℕ}
    (hturn : loop.turn running outcome now job = some (phase, submits))
    (hphase : phase = .awaiting awaited) :
    ∃ delay, loop.trigger = .fixedDelay delay := by
  have hsleep : ∀ expr, cronSleep expr now ≠ .awaiting awaited := by
    intro expr
    unfold cronSleep
    cases expr.secondsUntilNext now <;> simp
  have hsubmit : loop.trigger.afterSubmit now job = .awaiting awaited →
      ∃ delay, loop.trigger = .fixedDelay delay := by
    intro h
    cases htrigger : loop.trigger with
    | cron expr =>
      rw [htrigger] at h
      exact absurd h (hsleep expr)
    | fixedRate rate => simp [htrigger, Trigger.afterSubmit] at h
    | fixedDelay delay => exact ⟨delay, rfl⟩
  have hwhile : (loop.whileRunning running now job).1 = .awaiting awaited →
      ∃ delay, loop.trigger = .fixedDelay delay := by
    cases running with
    | true => exact hsubmit
    | false => simp [Loop.whileRunning]
  unfold Loop.turn at hturn
  cases hloop : loop.phase with
  | ended how => simp [hloop] at hturn
  | created =>
    simp only [hloop, Option.some.injEq, Loop.begin] at hturn
    cases htrigger : loop.trigger with
    | fixedDelay delay => exact ⟨delay, rfl⟩
    | cron expr =>
      simp only [htrigger] at hturn
      cases hvalid : expr.valid <;> cases running <;> simp_all
    | fixedRate rate =>
      simp only [htrigger] at hturn
      cases hdelay : loop.initialDelay with
      | none => simp_all
      | some delay => by_cases hzero : delay = 0 <;> simp_all
  | sleeping wake =>
    simp only [hloop] at hturn
    split at hturn
    · cases hturn
    · simp only [Option.some.injEq] at hturn
      exact hwhile (by rw [hturn]; exact hphase)
  | awaiting other =>
    simp only [hloop, Option.map_eq_some_iff, Prod.mk.injEq] at hturn
    obtain ⟨result, -, hresume, -⟩ := hturn
    cases htrigger : loop.trigger with
    | fixedDelay delay => exact ⟨delay, rfl⟩
    | cron expr =>
      cases result <;> simp_all [Loop.resume]
    | fixedRate rate =>
      cases result <;> simp_all [Loop.resume]

variable {execution : Execution Scheduler Event} {pick : Pick}
  {state next : Scheduler} {events : List Event}

theorem undisturbed_start (entries : List ScheduledEntry) (now : ℚ) :
    Undisturbed ⟨start entries now, []⟩ := by
  have hcreated : ∀ loop ∈ (start entries now).loops,
      loop.phase = .created ∧ loop.cancelRequested = false := by
    intro loop hloop
    simp only [start, mem_filterMap, Option.map_eq_some_iff] at hloop
    obtain ⟨entry, -, trigger, -, rfl⟩ := hloop
    exact ⟨rfl, rfl⟩
  constructor
  · exact fun _ => rfl
  · exact fun _ loop hloop => (hcreated loop hloop).2
  · intro loop hloop job hphase
    rw [(hcreated loop hloop).1] at hphase
    cases hphase

theorem Undisturbed.step (h : Undisturbed execution)
    (hstep : schedulerMachine.step execution.state pick = some (next, events)) :
    Undisturbed ⟨next, execution.trace ++ events⟩ := by
  have hcases := (schedulerMachine_step hstep).2
  cases pick with
  | loop index now =>
    obtain ⟨loop, phase, submits, hloop, -, -, hturn, rfl, -⟩ :=
      Scheduler.loopTurn_cases hcases
    have hmem := mem_of_getElem? hloop
    refine ⟨h.running, ?_, ?_⟩
    · intro hinactive other hother
      rcases Scheduler.mem_setPhase hother with hother | rfl
      · exact h.uncancelled hinactive other hother
      · rfl
    · intro other hother job hphase
      rcases Scheduler.mem_setPhase hother with hother | rfl
      · exact h.awaiting other hother job hphase
      · rcases hturn with ⟨-, rfl, -⟩ | ⟨-, hturn⟩
        · cases hphase
        · obtain ⟨delay, htrigger⟩ := turn_awaiting hturn hphase
          exact ⟨delay, htrigger⟩
  | job index outcome now =>
    obtain ⟨job, turned, -, -, rfl⟩ := Scheduler.jobTurn_cases hcases
    exact ⟨h.running, h.uncancelled, h.awaiting⟩
  | stop now =>
    obtain ⟨-, -, hstopping, hloops, -, -⟩ :=
      Scheduler.stopBegins_cases hcases
    refine ⟨by simp [hstopping], by simp [hstopping], ?_⟩
    intro loop hloop job hphase
    simp only [hloops, mem_map] at hloop
    obtain ⟨other, hother, rfl⟩ := hloop
    rw [Scheduler.cancelLoop_phase] at hphase
    rw [Scheduler.cancelLoop_trigger]
    exact h.awaiting other hother job hphase
  | stopResumes now =>
    rcases Scheduler.stopResumes_cases hcases with
      ⟨-, -, rfl, -⟩ | ⟨tasks, -, -, rfl, -⟩
    · exact ⟨by simp, by simp, h.awaiting⟩
    · exact ⟨by simp, by simp, h.awaiting⟩

theorem loopSurvives_of_disabled (hstep : schedulerMachine.step state pick = none) :
    LoopSurvives state pick := by
  intro index now loop _ henabled
  simp [hstep] at henabled

theorem loopsGoOn_step_iff (h : Undisturbed execution) (hgo : LoopsGoOn execution)
    (hstep : schedulerMachine.step execution.state pick = some (next, events)) :
    LoopsGoOn ⟨next, execution.trace ++ events⟩ ↔ LoopSurvives execution.state pick := by
  have hcases := (schedulerMachine_step hstep).2
  cases pick with
  | loop index now =>
    obtain ⟨loop, phase, submits, hloop, -, -, hturn, rfl, -⟩ :=
      Scheduler.loopTurn_cases hcases
    have hmem := mem_of_getElem? hloop
    have hsurvives : execution.state.stopping = .inactive → (phase.isEnded = false ↔
          loop.Survives execution.state.outcomeOf now) := by
      intro hinactive
      rcases hturn with ⟨hcancel, -, -⟩ | ⟨-, hturn⟩
      · rw [h.uncancelled hinactive loop hmem] at hcancel
        cases hcancel
      · rw [h.running hinactive] at hturn
        exact turn_isEnded hturn (h.awaiting loop hmem)
    constructor
    · intro hgo' other time found hpick _ hinactive hfound
      cases hpick
      rw [hloop] at hfound
      cases hfound
      exact (hsurvives hinactive).mp
        (hgo' hinactive _ (Scheduler.mem_setPhase_self hloop phase))
    · intro hall hinactive other hother
      rcases Scheduler.mem_setPhase hother with hother | rfl
      · exact hgo hinactive other hother
      · exact (hsurvives hinactive).mpr
          (hall index now loop rfl (by simp [hstep]) hinactive hloop)
  | job index outcome now =>
    obtain ⟨job, turned, -, -, rfl⟩ := Scheduler.jobTurn_cases hcases
    refine iff_of_true hgo ?_
    intro index now loop hpick
    cases hpick
  | stop now =>
    obtain ⟨-, -, hstopping, -, -, -⟩ := Scheduler.stopBegins_cases hcases
    refine iff_of_true (by simp [LoopsGoOn, hstopping]) ?_
    intro index now loop hpick
    cases hpick
  | stopResumes now =>
    refine iff_of_true ?_ ?_
    · rcases Scheduler.stopResumes_cases hcases with
        ⟨-, -, rfl, -⟩ | ⟨tasks, -, -, rfl, -⟩ <;> simp [LoopsGoOn]
    · intro index now loop hpick
      cases hpick

/-- In every run no loop ends before `stop()` is called exactly when each loop
survives its turns. -/
theorem loopsGoOn_iff_survives (entries : List ScheduledEntry) (now : ℚ)
    (schedule : List Pick) :
    (∀ front, front <+: schedule → LoopsGoOn (schedulerMachine.run (start entries now) front)) ↔
      schedulerMachine.Meets LoopSurvives ⟨start entries now, []⟩ schedule := by
  apply Machine.forall_prefix_iff_meets Undisturbed LoopsGoOn
  · exact fun _ _ _ _ h hstep => h.step hstep
  · exact fun _ _ _ _ => loopsGoOn_step_iff
  · exact fun _ _ => loopSurvives_of_disabled
  · exact undisturbed_start entries now
  · intro _ loop hloop
    simp only [start, mem_filterMap, Option.map_eq_some_iff] at hloop
    obtain ⟨entry, -, trigger, -, rfl⟩ := hloop
    rfl

/-- The first run of a job with a fixed delay raises, and the loop ends. -/
theorem not_loopsGoOn_raising :
    ¬ ∀ front, front <+: [.loop 0 0, .job 0 (some .raised) 0, .loop 0 0] →
      LoopsGoOn (schedulerMachine.run
        (start [{ fixedDelay := some 1, isAsync := true }] 0) front) := by
  intro hall
  have hgo := hall _ (prefix_refl _) (by decide)
  revert hgo
  decide

end PyFly.Scheduling
