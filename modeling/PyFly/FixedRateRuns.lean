import Mathlib.Data.List.Induction
import Mathlib.Tactic.Linarith
import PyFly.SchedulingLoops

/-!
# Runs of an entry with a fixed rate

The loop submits a run and sleeps for the whole interval, whether or not the
run has ended by then.
-/

namespace PyFly.Scheduling

open Library List

def Scheduler.rateOf (state : Scheduler) (loop : ℕ) : Option ℚ :=
  match state.loops[loop]?.map Loop.trigger with
  | some (.fixedRate rate) => some rate
  | _ => none

def RunsApart (rate : ℚ) (earlier later : Job) : Prop :=
  ∀ start, later.started = some start → (∃ ended, earlier.ended = some ended ∧ ended ≤ start) ∧
      ∃ started, earlier.started = some started ∧ started + rate ≤ start

def NoOverlap (state : Scheduler) : Prop :=
  ∀ (i j : ℕ) (earlier later : Job) (rate : ℚ), i < j →
    state.jobs[i]? = some earlier → state.jobs[j]? = some later →
      earlier.loop = later.loop → state.rateOf later.loop = some rate →
        RunsApart rate earlier later

def Job.latency (job : Job) : Option ℚ :=
  job.started.map fun started => started - job.submitted

def Job.duration (job : Job) : Option ℚ :=
  match job.started, job.ended with
  | some started, some ended => some (ended - started)
  | _, _ => none

def Scheduler.previousRun (state : Scheduler) (index loop : ℕ) : Option Job :=
  ((state.jobs.take index).filter fun job => job.loop = loop).getLast?

def Job.Fits (job : Job) (rate delay : ℚ) : Prop :=
  ∃ latency duration, job.latency = some latency ∧
    job.duration = some duration ∧ latency + duration ≤ rate + delay ∧ latency ≤ delay

def StartsInTime (state : Scheduler) (pick : Pick) : Prop :=
  ∀ index outcome now job rate previous, pick = .job index outcome now →
      (schedulerMachine.step state pick).isSome = true →
        state.jobs[index]? = some job → job.phase = .pending →
          job.cancelRequested = false → state.rateOf job.loop = some rate →
              state.previousRun index job.loop = some previous →
                previous.Fits rate (now - (previous.submitted + rate))

structure Job.Timed (job : Job) (now : ℚ) : Prop where
  pending : job.phase = .pending → job.started = none ∧ job.ended = none
  running : job.phase = .running → ∃ start, job.started = some start ∧ job.ended = none
  submitted : job.submitted ≤ now
  started : ∀ start, job.started = some start → job.submitted ≤ start ∧ start ≤ now
  ended : ∀ time, job.ended = some time →
    ∃ start, job.started = some start ∧ start ≤ time ∧ time ≤ now

def Timed (execution : Execution Scheduler Event) : Prop :=
  ∀ job ∈ execution.state.jobs, job.Timed execution.state.now

variable {execution : Execution Scheduler Event} {pick : Pick}
  {state next : Scheduler} {events : List Event}

variable {job : Job} {now : ℚ}

theorem Job.Timed.later {time : ℚ} (h : job.Timed now) (htime : now ≤ time) :
    job.Timed time where
  pending := h.pending
  running := h.running
  submitted := h.submitted.trans htime
  started := fun start hstart =>
    ⟨(h.started start hstart).1, (h.started start hstart).2.trans htime⟩
  ended := by
    intro ended hended
    obtain ⟨start, hstart, hle, hnow⟩ := h.ended ended hended
    exact ⟨start, hstart, hle, hnow.trans htime⟩

variable {turned : Job} {index : ℕ}

theorem Job.Timed.turnJob {isAsync : Bool} {outcome : Option Outcome} {time : ℚ}
    (h : job.Timed now) (htime : now ≤ time)
    (hturn : Scheduler.turnJob job isAsync index outcome time =
      some (turned, events)) : turned.Timed time := by
  have hlater := h.later htime
  rcases Scheduler.turnJob_cases hturn with
    ⟨-, -, rfl, -⟩ | ⟨-, -, result, rfl, -⟩ | ⟨hphase, -, rfl, -⟩ |
    ⟨hphase, result, rfl, -⟩ | ⟨-, rfl, -⟩
  · exact ⟨by simp, by simp, hlater.submitted, hlater.started, hlater.ended⟩
  · constructor <;> simp [hlater.submitted]
  · have hnone := (h.pending hphase).2
    constructor <;> simp [hlater.submitted, hnone]
  · obtain ⟨start, hstart, -⟩ := h.running hphase
    have htimes := hlater.started start hstart
    constructor <;> simp [hlater.submitted, hstart, htimes]
  · exact hlater

theorem Timed.step (h : Timed execution)
    (hstep : schedulerMachine.step execution.state pick = some (next, events)) :
    Timed ⟨next, execution.trace ++ events⟩ := by
  have hcases := schedulerMachine_step hstep
  cases pick with
  | loop index now =>
    obtain ⟨htime, hturn⟩ := hcases
    obtain ⟨loop, phase, submits, -, -, -, -, rfl, -⟩ :=
      Scheduler.loopTurn_cases hturn
    cases submits with
    | false => exact fun job hjob => (h job hjob).later htime
    | true =>
      intro job hjob
      rcases mem_append.mp hjob with hjob | hjob
      · exact (h job hjob).later htime
      · obtain rfl := mem_singleton.mp hjob
        constructor <;> simp
  | job index outcome now =>
    obtain ⟨htime, hturn⟩ := hcases
    obtain ⟨job, turned, hjob, hjobturn, rfl⟩ :=
      Scheduler.jobTurn_cases hturn
    intro other hother
    rcases mem_or_eq_of_mem_set hother with hother | rfl
    · exact (h other hother).later htime
    · exact (h job (mem_of_getElem? hjob)).turnJob htime hjobturn
  | stop now =>
    obtain ⟨htime, hturn⟩ := hcases
    obtain ⟨-, -, -, -, hjobs, -⟩ := Scheduler.stopBegins_cases hturn
    intro job hjob
    simp only [hjobs, mem_mapIdx] at hjob
    obtain ⟨index, hindex, rfl⟩ := hjob
    have hlater := (h _ (getElem_mem hindex)).later htime
    rw [Scheduler.stopBegins_now hturn]
    split
    · exact ⟨hlater.pending, hlater.running, hlater.submitted, hlater.started, hlater.ended⟩
    · exact hlater
  | stopResumes now =>
    obtain ⟨htime, hturn⟩ := hcases
    rcases Scheduler.stopResumes_cases hturn with
      ⟨-, -, rfl, -⟩ | ⟨tasks, -, -, rfl, -⟩
    · exact fun job hjob => (h job hjob).later htime
    · exact fun job hjob => (h job hjob).later htime

/-! ## Intervals and previous runs -/

theorem rateOf_congr (h : next.loops.map Loop.trigger =
    state.loops.map Loop.trigger) (loop : ℕ) :
    next.rateOf loop = state.rateOf loop := by
  unfold Scheduler.rateOf
  rw [← List.getElem?_map, ← List.getElem?_map, h]

theorem map_set_of_eq {α β : Type*} {f : α → β} {items : List α} {old item : α}
    (hold : items[index]? = some old) (hitem : f item = f old) :
    (items.set index item).map f = items.map f := by
  apply ext_getElem?
  intro other
  rw [List.getElem?_map, List.getElem?_map, List.getElem?_set]
  split
  · rename_i hindex
    subst hindex
    obtain ⟨hlt, hget⟩ := List.getElem?_eq_some_iff.mp hold
    simp [hlt, hitem, hget]
  · rfl

theorem setPhase_triggers {loop : Loop}
    (hloop : state.loops[index]? = some loop) (phase : LoopPhase) :
    (state.setPhase index loop phase).map Loop.trigger = state.loops.map Loop.trigger :=
  map_set_of_eq hloop rfl

theorem rateOf_step (hstep : schedulerMachine.step state pick = some (next, events))
    (loop : ℕ) : next.rateOf loop = state.rateOf loop := by
  have hcases := (schedulerMachine_step hstep).2
  cases pick with
  | loop index now =>
    obtain ⟨turned, phase, submits, hloop, -, -, -, rfl, -⟩ :=
      Scheduler.loopTurn_cases hcases
    exact rateOf_congr (setPhase_triggers hloop phase) loop
  | job index outcome now =>
    obtain ⟨job, turned, -, -, rfl⟩ := Scheduler.jobTurn_cases hcases
    rfl
  | stop now =>
    obtain ⟨-, -, -, hloops, -, -⟩ := Scheduler.stopBegins_cases hcases
    apply rateOf_congr
    simp [hloops, Function.comp_def]
  | stopResumes now =>
    rcases Scheduler.stopResumes_cases hcases with
      ⟨-, -, rfl, -⟩ | ⟨tasks, -, -, rfl, -⟩ <;> rfl

variable {earlier : Job}

theorem getLast?_filter_of_getElem? {jobs : List Job} (keep : Job → Bool)
    {i : ℕ} (hearlier : jobs[i]? = some earlier) (hkeep : keep earlier = true) :
    ∃ k last, i ≤ k ∧ jobs[k]? = some last ∧ keep last = true ∧
      (jobs.filter keep).getLast? = some last := by
  induction jobs using List.reverseRecOn with
  | nil => simp at hearlier
  | append_singleton front job ih =>
    have hbound := (List.getElem?_eq_some_iff.mp hearlier).1
    rw [length_append, length_singleton] at hbound
    cases hjob : keep job with
    | true =>
      exact ⟨front.length, job, by omega, by simp, hjob, by simp [hjob]⟩
    | false =>
      have hlt : i < front.length := by
        by_contra hge
        have hi : i = front.length := by omega
        subst hi
        simp only [List.getElem?_concat_length, Option.some.injEq]
          at hearlier
        rw [hearlier, hkeep] at hjob
        cases hjob
      rw [List.getElem?_append_left hlt] at hearlier
      obtain ⟨k, last, hle, hlast, hkept, hfilter⟩ := ih hearlier
      have hk := (List.getElem?_eq_some_iff.mp hlast).1
      refine ⟨k, last, hle, ?_, hkept, by simp [hjob, hfilter]⟩
      rw [List.getElem?_append_left hk]
      exact hlast

theorem previousRun_of_earlier {i loop : ℕ} (hlt : i < index)
    (hearlier : state.jobs[i]? = some earlier) (hloop : earlier.loop = loop) :
    ∃ k previous, i ≤ k ∧ k < index ∧ state.jobs[k]? = some previous ∧
      previous.loop = loop ∧ state.previousRun index loop = some previous := by
  have htake : (state.jobs.take index)[i]? = some earlier := by
    rw [List.getElem?_take_of_lt hlt]
    exact hearlier
  obtain ⟨k, previous, hle, hprevious, hkeep, hlast⟩ :=
    getLast?_filter_of_getElem? (fun job => decide (job.loop = loop)) htake
      (by simpa using hloop)
  have hk : k < index := by
    have hbound := (List.getElem?_eq_some_iff.mp hprevious).1
    rw [length_take] at hbound
    omega
  rw [List.getElem?_take_of_lt hk] at hprevious
  exact ⟨k, previous, hle, hk, hprevious, by simpa using hkeep, hlast⟩

theorem previousRun_earlier {loop : ℕ} {previous : Job}
    (h : state.previousRun index loop = some previous) :
    ∃ k, k < index ∧ state.jobs[k]? = some previous ∧ previous.loop = loop := by
  have hmem := mem_of_getLast? h
  obtain ⟨htake, hloop⟩ := mem_filter.mp hmem
  obtain ⟨k, hk⟩ := List.getElem?_of_mem htake
  have hbound := (List.getElem?_eq_some_iff.mp hk).1
  rw [length_take] at hbound
  rw [List.getElem?_take_of_lt (by omega)] at hk
  exact ⟨k, by omega, hk, by simpa using hloop⟩

theorem fits_iff (job : Job) (rate now : ℚ) : job.Fits rate (now - (job.submitted + rate)) ↔
      (∃ ended, job.ended = some ended ∧ ended ≤ now) ∧
        ∃ started, job.started = some started ∧ started + rate ≤ now := by
  unfold Job.Fits Job.latency Job.duration
  cases hstarted : job.started with
  | none => simp
  | some started =>
    cases hended : job.ended with
    | none => simp
    | some ended =>
      simp only [Option.map_some, Option.some.injEq, exists_eq_left', exists_and_left]
      constructor
      · rintro ⟨hfits, hdelay⟩
        exact ⟨by linarith, by linarith⟩
      · rintro ⟨hended, hapart⟩
        exact ⟨by linarith, by linarith⟩

/-! ## Steps -/

variable {rate : ℚ}

theorem RunsApart.of_unstarted {later : Job} (h : later.started = none) :
    RunsApart rate earlier later := by
  intro start hstart
  rw [h] at hstart
  cases hstart

theorem RunsApart.unstarted {later : Job} (h : RunsApart rate earlier later)
    (hended : earlier.ended = none) :
    later.started = none := by
  cases hstarted : later.started with
  | none => rfl
  | some start =>
    obtain ⟨⟨ended, hsome, -⟩, -⟩ := h start hstarted
    rw [hended] at hsome
    cases hsome

theorem RunsApart.congr {later earlier' later' : Job} (h : RunsApart rate earlier later)
    (hstarted : earlier'.started = earlier.started)
    (hended : earlier'.ended = earlier.ended)
    (hlater : later'.started = later.started) :
    RunsApart rate earlier' later' := by
  intro start hstart
  rw [hstarted, hended]
  exact h start (hlater ▸ hstart)

theorem RunsApart.trans {first second third : Job}
    (h : RunsApart rate first second) (hsecond : second.Timed now)
    (hnext : RunsApart rate second third) : RunsApart rate first third := by
  intro start hstart
  obtain ⟨⟨ended, hended, hend⟩, -⟩ := hnext start hstart
  obtain ⟨time, htime, hle, -⟩ := hsecond.ended ended hended
  obtain ⟨⟨before, hbefore, hfirst⟩, began, hbegan, hapart⟩ := h time htime
  exact ⟨⟨before, hbefore, by linarith⟩, began, hbegan, by linarith⟩

theorem noOverlap_set (h : NoOverlap state)
    (hjob : state.jobs[index]? = some job) (hloop : turned.loop = job.loop)
    (hearlier : ∀ i earlier rate, i < index → state.jobs[i]? = some earlier →
      earlier.loop = job.loop → state.rateOf job.loop = some rate →
        RunsApart rate earlier turned)
    (hlater : ∀ later rate, RunsApart rate job later → RunsApart rate turned later) :
    NoOverlap { state with
      jobs := state.jobs.set index turned, now := now } := by
  have hself : (state.jobs.set index turned)[index]? = some turned := by
    have hlt := (List.getElem?_eq_some_iff.mp hjob).1
    simp [hlt]
  intro i j earlier later rate hlt hi hj hsame hrate
  dsimp only at hi hj
  by_cases hindex : index = i
  · subst hindex
    rw [hself] at hi
    cases hi
    rw [List.getElem?_set_ne (by omega)] at hj
    rw [hloop] at hsame
    exact hlater later rate (h index j job later rate hlt hjob hj hsame hrate)
  · rw [List.getElem?_set_ne hindex] at hi
    by_cases hindex' : index = j
    · subst hindex'
      rw [hself] at hj
      cases hj
      rw [hloop] at hsame hrate
      exact hearlier i earlier rate hlt hi hsame hrate
    · rw [List.getElem?_set_ne hindex'] at hj
      exact h i j earlier later rate hlt hi hj hsame hrate

theorem noOverlap_start_iff (htimed : ∀ job ∈ state.jobs, job.Timed state.now)
    (h : NoOverlap state) (hjob : state.jobs[index]? = some job)
    (hphase : job.phase = .pending) (hloop : turned.loop = job.loop)
    (hstarted : turned.started = some now) :
    NoOverlap { state with jobs := state.jobs.set index turned, now := now } ↔
      ∀ rate previous, state.rateOf job.loop = some rate →
        state.previousRun index job.loop = some previous →
          previous.Fits rate (now - (previous.submitted + rate)) := by
  constructor
  · intro hnext rate previous hrate hprevious
    obtain ⟨k, hlt, hk, hsame⟩ := previousRun_earlier hprevious
    have hbound := (List.getElem?_eq_some_iff.mp hjob).1
    have hapart := hnext k index previous turned rate hlt
      (by rw [List.getElem?_set_ne (by omega)]; exact hk)
      (by simp [hbound]) (by rw [hsame, hloop]) (by rw [hloop]; exact hrate)
    exact (fits_iff previous rate now).mpr (hapart now hstarted)
  · intro hfits
    refine noOverlap_set h hjob hloop ?_ ?_
    · intro i earlier rate hlt hi hsame hrate
      obtain ⟨k, previous, hle, -, hk, hprevious, hrun⟩ :=
        previousRun_of_earlier hlt hi hsame
      have hapart : RunsApart rate previous turned := by
        intro start hstart
        rw [hstarted, Option.some.injEq] at hstart
        rw [← hstart]
        exact (fits_iff previous rate now).mp (hfits rate previous hrate hrun)
      rcases Nat.lt_or_eq_of_le hle with hlt' | rfl
      · have hbefore := h i k earlier previous rate hlt' hi hk
          (by rw [hsame, hprevious]) (by rw [hprevious]; exact hrate)
        exact hbefore.trans (htimed previous (mem_of_getElem? hk)) hapart
      · rw [hi, Option.some.injEq] at hk
        rw [hk]
        exact hapart
    · intro later rate hapart
      have hended := ((htimed job (mem_of_getElem? hjob)).pending hphase).2
      exact .of_unstarted (hapart.unstarted hended)

theorem noOverlap_jobTurn_iff {outcome : Option Outcome}
    (htimed : ∀ job ∈ state.jobs, job.Timed state.now) (h : NoOverlap state)
    (hturn : state.jobTurn index outcome now = some (next, events)) :
    NoOverlap next ↔ ∀ job rate previous, state.jobs[index]? = some job →
      job.phase = .pending → job.cancelRequested = false → state.rateOf job.loop = some rate →
          state.previousRun index job.loop = some previous →
            previous.Fits rate (now - (previous.submitted + rate)) := by
  obtain ⟨job, turned, hjob, hjobturn, rfl⟩ := Scheduler.jobTurn_cases hturn
  have hearlier : ∀ turned : Job, turned.started = job.started →
      ∀ i earlier rate, i < index → state.jobs[i]? = some earlier →
        earlier.loop = job.loop → state.rateOf job.loop = some rate →
          RunsApart rate earlier turned := by
    intro turned hstarted i earlier rate hlt hi hsame hrate
    exact (h i index earlier job rate hlt hi hjob hsame hrate).congr rfl rfl hstarted
  have hstart : job.phase = .pending → job.cancelRequested = false →
      turned.loop = job.loop → turned.started = some now → (NoOverlap { state with
            jobs := state.jobs.set index turned, now := now } ↔
          ∀ job rate previous, state.jobs[index]? = some job →
            job.phase = .pending → job.cancelRequested = false →
              state.rateOf job.loop = some rate →
                state.previousRun index job.loop = some previous →
                  previous.Fits rate (now - (previous.submitted + rate))) := by
    intro hphase hcancel hloop hstarted
    rw [noOverlap_start_iff htimed h hjob hphase hloop hstarted]
    constructor
    · intro hall other rate previous hother _ _
      rw [hjob, Option.some.injEq] at hother
      rw [← hother]
      exact hall rate previous
    · intro hall rate previous
      exact hall job rate previous hjob hphase hcancel
  rcases Scheduler.turnJob_cases hjobturn with
    ⟨-, hcancel, rfl, -⟩ | ⟨hphase, hcancel, result, hstarts, -⟩ |
    ⟨hphase, hcancel, hstarts, -⟩ | ⟨hphase, result, rfl, -⟩ |
    ⟨hphase, rfl, -⟩
  · refine iff_of_true ?_ ?_
    · exact noOverlap_set h hjob rfl (hearlier _ rfl)
        fun later rate hapart => hapart.congr rfl rfl rfl
    · intro other rate previous hother _ huncancelled
      simp_all
  · exact hstart hphase hcancel (by rw [hstarts]) (by rw [hstarts])
  · exact hstart hphase hcancel (by rw [hstarts]) (by rw [hstarts])
  · refine iff_of_true ?_ ?_
    · refine noOverlap_set h hjob rfl (hearlier _ rfl) ?_
      intro later rate hapart
      obtain ⟨start, -, hended⟩ :=
        (htimed job (mem_of_getElem? hjob)).running hphase
      exact .of_unstarted (hapart.unstarted hended)
    · intro other rate previous hother hpending
      simp_all
  · refine iff_of_true ?_ ?_
    · exact noOverlap_set h hjob rfl (hearlier _ rfl) fun _ _ hapart => hapart
    · intro other rate previous hother hpending
      simp_all

theorem NoOverlap.submit (h : NoOverlap state) : NoOverlap { state with
      jobs := state.jobs ++ [{ loop := index, submitted := now }] } := by
  intro i j earlier later rate hlt hi hj hsame hrate
  dsimp only at hi hj
  have hbound := (List.getElem?_eq_some_iff.mp hj).1
  rw [length_append, length_singleton] at hbound
  by_cases hindex : j < state.jobs.length
  · rw [List.getElem?_append_left (by omega)] at hi hj
    exact h i j earlier later rate hlt hi hj hsame hrate
  · have hj' : j = state.jobs.length := by omega
    subst hj'
    simp only [List.getElem?_concat_length, Option.some.injEq] at hj
    rw [← hj]
    exact .of_unstarted rfl

theorem NoOverlap.congr (h : NoOverlap state)
    (hrate : ∀ loop, next.rateOf loop = state.rateOf loop)
    (hjobs : ∀ (index : ℕ) (job : Job), next.jobs[index]? = some job →
      ∃ old, state.jobs[index]? = some old ∧ job.loop = old.loop ∧
        job.started = old.started ∧ job.ended = old.ended) :
    NoOverlap next := by
  intro i j earlier later rate hlt hi hj hsame hfound
  obtain ⟨earlier', hi', hloop, hstarted, hended⟩ := hjobs i earlier hi
  obtain ⟨later', hj', hloop', hstarted', -⟩ := hjobs j later hj
  rw [hrate, hloop'] at hfound
  rw [hloop, hloop'] at hsame
  exact (h i j earlier' later' rate hlt hi' hj' hsame hfound).congr hstarted hended hstarted'

theorem startsInTime_of_disabled (hstep : schedulerMachine.step state pick = none) :
    StartsInTime state pick := by
  intro index outcome now job rate previous _ henabled
  simp [hstep] at henabled

theorem noOverlap_step_iff (htimed : Timed execution) (h : NoOverlap execution.state)
    (hstep : schedulerMachine.step execution.state pick = some (next, events)) :
    NoOverlap next ↔ StartsInTime execution.state pick := by
  have hrate := rateOf_step hstep
  have hcases := (schedulerMachine_step hstep).2
  have hother : (∀ index outcome now, pick ≠ .job index outcome now) →
      StartsInTime execution.state pick :=
    fun hne index outcome now _ _ _ hpick =>
      absurd hpick (hne index outcome now)
  cases pick with
  | job index outcome now =>
    refine (noOverlap_jobTurn_iff htimed h hcases).trans ?_
    constructor
    · rintro hall _ _ _ job rate previous hpick -
      cases hpick
      exact hall job rate previous
    · intro hstarts job rate previous
      exact hstarts index outcome now job rate previous rfl (by simp [hstep])
  | loop index now =>
    refine iff_of_true ?_ (hother (by simp))
    obtain ⟨loop, phase, submits, -, -, -, -, rfl, -⟩ :=
      Scheduler.loopTurn_cases hcases
    cases submits with
    | false =>
      exact h.congr hrate fun _ job hjob => ⟨job, hjob, rfl, rfl, rfl⟩
    | true =>
      exact h.submit.congr hrate fun _ job hjob => ⟨job, hjob, rfl, rfl, rfl⟩
  | stop now =>
    refine iff_of_true ?_ (hother (by simp))
    obtain ⟨-, -, -, -, hjobs, -⟩ := Scheduler.stopBegins_cases hcases
    refine h.congr hrate ?_
    intro index job hjob
    simp only [hjobs, List.getElem?_mapIdx, Option.map_eq_some_iff]
      at hjob
    obtain ⟨old, hold, rfl⟩ := hjob
    refine ⟨old, hold, ?_⟩
    split <;> simp
  | stopResumes now =>
    refine iff_of_true ?_ (hother (by simp))
    rcases Scheduler.stopResumes_cases hcases with
      ⟨-, -, rfl, -⟩ | ⟨tasks, -, -, rfl, -⟩ <;> exact h

end PyFly.Scheduling
