import PyFly.TccOrchestrator

/-!
# The attempts at one phase of a participant

The retry loop stops at the first attempt that returns.  What it ends with,
which calls it makes and which of them return is settled here; the loops over
the participants only use these facts.
-/

namespace PyFly.Tcc

open Library Transactional List

variable {ι V E : Type}

/-! ## Calls in a trace -/

def TccQuery.called? (phase : TccPhase) : TccQuery ι V E → Option ι
  | .invoke invoked participant _ _ _ =>
    if invoked = phase then some participant else none
  | _ => none

def phaseCalls (phase : TccPhase) (trace : List (TccQuery ι V E)) : List ι :=
  trace.filterMap (TccQuery.called? phase)

@[simp] theorem phaseCalls_nil (phase : TccPhase) :
    phaseCalls phase ([] : List (TccQuery ι V E)) = [] := rfl

@[simp] theorem phaseCalls_append (phase : TccPhase)
    (first second : List (TccQuery ι V E)) :
    phaseCalls phase (first ++ second) = phaseCalls phase first ++ phaseCalls phase second :=
  filterMap_append

theorem phaseCalls_flatMap {α : Type} (phase : TccPhase) (items : List α)
    (trace : α → List (TccQuery ι V E)) :
    phaseCalls phase (items.flatMap trace) =
      items.flatMap fun item => phaseCalls phase (trace item) := by
  induction items with
  | nil => rfl
  | cons item rest ih => simp [ih]

def Returned (env : TccEnvironment ι V E) (phase : TccPhase)
    (participant : ι) (trace : List (TccQuery ι V E)) : Prop :=
  ∃ attempt timeoutMs prepared value,
    TccQuery.invoke phase participant attempt timeoutMs prepared ∈ trace ∧
      env.answer (.invoke phase participant attempt timeoutMs prepared) = .ok value

def Called (phase : TccPhase) (participant : ι) (trace : List (TccQuery ι V E)) : Prop :=
  ∃ attempt timeoutMs kwargs,
    TccQuery.invoke phase participant attempt timeoutMs (.ok kwargs) ∈ trace

def lastCall? [DecidableEq ι] (phase : TccPhase) (participant : ι)
    (trace : List (TccQuery ι V E)) : Option (TccQuery ι V E) :=
  (trace.filter fun query => query.called? phase = some participant).getLast?

def Raised [DecidableEq ι] (env : TccEnvironment ι V E) (phase : TccPhase)
    (participant : ι) (trace : List (TccQuery ι V E)) : Prop :=
  ∃ query error, lastCall? phase participant trace = some query ∧
    env.answer query = .error (.exception error)

section Traces

variable {env : TccEnvironment ι V E} {phase : TccPhase} {participant : ι}
variable {first second : List (TccQuery ι V E)}

theorem returned_append : Returned env phase participant (first ++ second) ↔
      Returned env phase participant first ∨ Returned env phase participant second := by
  constructor
  · intro h
    obtain ⟨attempt, timeoutMs, prepared, value, hmem, hok⟩ := h
    rcases mem_append.mp hmem with hfirst | hsecond
    · exact Or.inl ⟨attempt, timeoutMs, prepared, value, hfirst, hok⟩
    · exact Or.inr ⟨attempt, timeoutMs, prepared, value, hsecond, hok⟩
  · intro h
    rcases h with h | h
    · obtain ⟨attempt, timeoutMs, prepared, value, hmem, hok⟩ := h
      exact ⟨attempt, timeoutMs, prepared, value, mem_append_left _ hmem, hok⟩
    · obtain ⟨attempt, timeoutMs, prepared, value, hmem, hok⟩ := h
      exact ⟨attempt, timeoutMs, prepared, value, mem_append_right _ hmem, hok⟩

theorem returned_flatMap {α : Type} {items : List α} {trace : α → List (TccQuery ι V E)} :
    Returned env phase participant (items.flatMap trace) ↔
      ∃ item ∈ items, Returned env phase participant (trace item) := by
  constructor
  · intro h
    obtain ⟨attempt, timeoutMs, prepared, value, hmem, hok⟩ := h
    obtain ⟨item, hitem, htrace⟩ := mem_flatMap.mp hmem
    exact ⟨item, hitem, attempt, timeoutMs, prepared, value, htrace, hok⟩
  · intro h
    obtain ⟨item, hitem, attempt, timeoutMs, prepared, value, htrace, hok⟩ :=
      h
    exact ⟨attempt, timeoutMs, prepared, value, mem_flatMap.mpr ⟨item, hitem, htrace⟩, hok⟩

theorem called_append : Called phase participant (first ++ second) ↔
      Called phase participant first ∨ Called phase participant second := by
  unfold Called
  simp only [mem_append]
  constructor
  · intro h
    obtain ⟨attempt, timeoutMs, kwargs, hfirst | hsecond⟩ := h
    · exact Or.inl ⟨attempt, timeoutMs, kwargs, hfirst⟩
    · exact Or.inr ⟨attempt, timeoutMs, kwargs, hsecond⟩
  · intro h
    rcases h with ⟨attempt, timeoutMs, kwargs, hfirst⟩ | ⟨attempt, timeoutMs, kwargs, hsecond⟩
    · exact ⟨attempt, timeoutMs, kwargs, Or.inl hfirst⟩
    · exact ⟨attempt, timeoutMs, kwargs, Or.inr hsecond⟩

theorem called_flatMap {α : Type} {items : List α} {trace : α → List (TccQuery ι V E)} :
    Called phase participant (items.flatMap trace) ↔
      ∃ item ∈ items, Called phase participant (trace item) := by
  constructor
  · intro h
    obtain ⟨attempt, timeoutMs, kwargs, hmem⟩ := h
    obtain ⟨item, hitem, htrace⟩ := mem_flatMap.mp hmem
    exact ⟨item, hitem, attempt, timeoutMs, kwargs, htrace⟩
  · intro h
    obtain ⟨item, hitem, attempt, timeoutMs, kwargs, htrace⟩ := h
    exact ⟨attempt, timeoutMs, kwargs, mem_flatMap.mpr ⟨item, hitem, htrace⟩⟩

end Traces

namespace TccRun

section Exceptions

variable {α : Type} {answer : TccQuery ι V E → TccReply V E}
variable {code : TccRun ι V E α}

theorem queries_exceptException :
    (exceptException code).queries answer = code.queries answer := by
  unfold exceptException
  cases hcode : code.outcome answer with
  | ok value =>
    have hbind : (code >>= fun value => pure (.ok value) :
        TccRun ι V E (Except E α)).outcome answer = .ok (.ok value) := by
      rw [Async.outcome_bind_of_ok answer hcode]
      rfl
    rw [Async.queries_catching_of_ok answer hbind,
      Async.queries_bind_of_ok answer hcode, Async.queries_pure,
      append_nil]
  | error fault =>
    have hbind : (code >>= fun value => pure (.ok value) :
        TccRun ι V E (Except E α)).outcome answer = .error fault :=
      Async.outcome_bind_of_error answer hcode _
    rw [Async.queries_catching_of_error answer hbind, Async.queries_bind_of_error answer hcode]
    cases fault <;> simp

theorem outcome_exceptException_of_ok {value : α} (hok : code.outcome answer = .ok value) :
    (exceptException code).outcome answer = .ok (.ok value) := by
  have hbind : (code >>= fun value => pure (.ok value) :
      TccRun ι V E (Except E α)).outcome answer = .ok (.ok value) := by
    rw [Async.outcome_bind_of_ok answer hok]
    rfl
  exact Async.outcome_catching_of_ok answer hbind _

theorem outcome_exceptException_of_exception {error : E}
    (herror : code.outcome answer = .error (.exception error)) :
    (exceptException code).outcome answer = .ok (.error error) := by
  have hbind : (code >>= fun value => pure (.ok value) :
      TccRun ι V E (Except E α)).outcome answer = .error (.exception error) :=
    Async.outcome_bind_of_error answer herror _
  unfold exceptException
  rw [Async.outcome_catching_of_error answer hbind]
  rfl

theorem outcome_exceptException_of_cancelled
    (hcancelled : code.outcome answer = .error .cancelled) :
    (exceptException code).outcome answer = .error .cancelled := by
  have hbind : (code >>= fun value => pure (.ok value) :
      TccRun ι V E (Except E α)).outcome answer = .error .cancelled :=
    Async.outcome_bind_of_error answer hcancelled _
  unfold exceptException
  rw [Async.outcome_catching_of_error answer hbind]
  rfl

end Exceptions

section Attempts

variable {env : TccEnvironment ι V E} {phase : TccPhase}
variable {pDef : ParticipantDefinition ι} {timeoutMs : ℤ}
variable {prepared : Except E (Dict String (Argument V))}

inductive Tries (env : TccEnvironment ι V E) (phase : TccPhase)
    (pDef : ParticipantDefinition ι) (timeoutMs : ℤ)
    (prepared : Except E (Dict String (Argument V))) :
    ℕ → ℕ → List (TccQuery ι V E) → TccReply V E → Prop
  | last {attempt remaining : ℕ} {reply : TccReply V E}
      (hreply : env.answer (.invoke phase pDef.id attempt timeoutMs prepared) = reply)
      (hend : remaining = 0 ∨ ∀ error, reply ≠ .error (.exception error)) :
      Tries env phase pDef timeoutMs prepared attempt remaining
        [.invoke phase pDef.id attempt timeoutMs prepared] reply
  | interrupted {attempt remaining : ℕ} {error : E} {backoffMs : ℚ}
      (herror : env.answer (.invoke phase pDef.id attempt timeoutMs prepared) =
          .error (.exception error)) :
      Tries env phase pDef timeoutMs prepared attempt (remaining + 1)
        [.invoke phase pDef.id attempt timeoutMs prepared,
          .sleep phase pDef.id attempt backoffMs] (.error .cancelled)
  | again {attempt remaining : ℕ} {error : E}
      {asides rest : List (TccQuery ι V E)} {reply : TccReply V E}
      (herror : env.answer (.invoke phase pDef.id attempt timeoutMs prepared) =
          .error (.exception error))
      (hasides : ∀ query ∈ asides, ∃ backoffMs, query = .sleep phase pDef.id attempt backoffMs)
      (hrest : Tries env phase pDef timeoutMs prepared (attempt + 1) remaining rest reply) :
      Tries env phase pDef timeoutMs prepared attempt (remaining + 1)
        (.invoke phase pDef.id attempt timeoutMs prepared :: asides ++ rest)
        reply

theorem backOff_spec (attempt : ℕ) (backoffMs : ℚ) :
    ((backOff phase pDef attempt backoffMs).outcome env.answer = .ok () ∧
      ∀ query ∈ (backOff phase pDef attempt backoffMs).queries env.answer,
        query = .sleep phase pDef.id attempt backoffMs) ∨
    ((backOff phase pDef attempt backoffMs).outcome env.answer = .error .cancelled ∧
      (backOff phase pDef attempt backoffMs).queries env.answer =
        [.sleep phase pDef.id attempt backoffMs]) := by
  unfold backOff
  by_cases hpositive : 0 < backoffMs
  · rw [if_pos hpositive]
    cases hcancel : env.callerCancelled (.sleep phase pDef.id attempt backoffMs) with
    | true =>
      right
      have hask : (Async.ask (.sleep phase pDef.id attempt backoffMs) :
          TccRun ι V E (Option V)).outcome env.answer = .error .cancelled := by
        simp [TccEnvironment.answer, hcancel]
      exact ⟨Async.outcome_bind_of_error _ hask _, Async.queries_bind_of_error _ hask _⟩
    | false =>
      left
      have hask : (Async.ask (.sleep phase pDef.id attempt backoffMs) :
          TccRun ι V E (Option V)).outcome env.answer = .ok none := by
        simp [TccEnvironment.answer, hcancel]
      constructor
      · rw [Async.outcome_bind_of_ok _ hask]
        rfl
      · rw [Async.queries_bind_of_ok _ hask]
        simp
  · rw [if_neg hpositive]
    left
    simp

theorem attempts_tries (attempt remaining : ℕ) (backoffMs : ℚ) :
    Tries env phase pDef timeoutMs prepared attempt remaining
      ((attempts phase pDef timeoutMs prepared remaining attempt backoffMs).queries env.answer)
      ((attempts phase pDef timeoutMs prepared remaining attempt
        backoffMs).outcome env.answer) := by
  induction remaining generalizing attempt backoffMs with
  | zero => exact .last rfl (Or.inl rfl)
  | succ remaining ih =>
    unfold attempts
    have hask : ∀ reply, env.answer (.invoke phase pDef.id attempt timeoutMs prepared) = reply →
        (Async.ask (.invoke phase pDef.id attempt timeoutMs prepared) :
          TccRun ι V E (Option V)).outcome env.answer = reply := by
      intro reply hreply
      rw [Async.outcome_ask, hreply]
    cases hreply : env.answer (.invoke phase pDef.id attempt timeoutMs prepared) with
    | ok value =>
      have hvalue := outcome_exceptException_of_ok (hask _ hreply)
      rw [Async.queries_bind_of_ok _ hvalue,
        Async.outcome_bind_of_ok _ hvalue, queries_exceptException]
      exact .last hreply (Or.inr (by simp))
    | error fault =>
      cases fault with
      | cancelled =>
        have hvalue :=
          outcome_exceptException_of_cancelled (hask _ hreply)
        rw [Async.queries_bind_of_error _ hvalue, Async.outcome_bind_of_error _ hvalue,
          queries_exceptException]
        exact .last hreply (Or.inr (by simp))
      | exception error =>
        have hvalue :=
          outcome_exceptException_of_exception (hask _ hreply)
        rw [Async.queries_bind_of_ok _ hvalue,
          Async.outcome_bind_of_ok _ hvalue, queries_exceptException]
        dsimp only
        rcases @backOff_spec _ _ _ env phase pDef attempt backoffMs with
          ⟨hslept, hsleeps⟩ | ⟨hcancelled, hsleeps⟩
        · rw [Async.queries_bind_of_ok _ hslept,
            Async.outcome_bind_of_ok _ hslept, Async.queries_ask,
            ← append_assoc]
          exact .again hreply
            (fun query hmem => ⟨backoffMs, hsleeps query hmem⟩)
            (ih (attempt + 1) (backoffMs * 2))
        · rw [Async.queries_bind_of_error _ hcancelled,
            Async.outcome_bind_of_error _ hcancelled, hsleeps]
          exact .interrupted hreply

section Facts

variable {attempt remaining : ℕ} {trace : List (TccQuery ι V E)}
variable {reply : TccReply V E}

variable {phase' : TccPhase}

theorem Tries.mem_invoke (h : Tries env phase pDef timeoutMs prepared attempt remaining trace
      reply) {participant : ι} {number : ℕ} {timeoutMs' : ℤ}
    {prepared' : Except E (Dict String (Argument V))}
    (hmem : .invoke phase' participant number timeoutMs' prepared' ∈ trace) :
    phase' = phase ∧ participant = pDef.id ∧ prepared' = prepared := by
  induction h with
  | last hreply hend =>
    cases mem_singleton.mp hmem
    exact ⟨rfl, rfl, rfl⟩
  | interrupted herror =>
    rcases mem_cons.mp hmem with hcall | hsleep
    · cases hcall
      exact ⟨rfl, rfl, rfl⟩
    · cases mem_singleton.mp hsleep
  | again herror hasides _ ih =>
    rcases mem_append.mp hmem with hfirst | hrest
    · rcases mem_cons.mp hfirst with hcall | haside
      · cases hcall
        exact ⟨rfl, rfl, rfl⟩
      · obtain ⟨backoffMs, hsleep⟩ := hasides _ haside
        cases hsleep
    · exact ih hrest

theorem Tries.first_mem
    (h : Tries env phase pDef timeoutMs prepared attempt remaining trace reply) :
    .invoke phase pDef.id attempt timeoutMs prepared ∈ trace := by
  cases h <;> simp

theorem phaseCalls_asides {asides : List (TccQuery ι V E)}
    (hasides : ∀ query ∈ asides, ∃ backoffMs,
      query = .sleep phase pDef.id attempt backoffMs) (phase' : TccPhase) :
    phaseCalls phase' asides = [] := by
  apply filterMap_eq_nil_iff.mpr
  intro query hmem
  obtain ⟨backoffMs, hsleep⟩ := hasides query hmem
  rw [hsleep]
  rfl

theorem Tries.phaseCalls_self
    (h : Tries env phase pDef timeoutMs prepared attempt remaining trace reply) :
    ∃ count, 1 ≤ count ∧ count ≤ remaining + 1 ∧
      phaseCalls phase trace = List.replicate count pDef.id := by
  induction h with
  | last hreply hend =>
    exact ⟨1, le_refl 1, by omega, by simp [phaseCalls, TccQuery.called?]⟩
  | interrupted herror =>
    exact ⟨1, le_refl 1, by omega, by simp [phaseCalls, TccQuery.called?]⟩
  | again herror hasides _ ih =>
    obtain ⟨count, hpositive, hbound, hcalls⟩ := ih
    refine ⟨count + 1, by omega, by omega, ?_⟩
    rw [phaseCalls_append, hcalls]
    have hfirst := phaseCalls_asides hasides phase
    simp only [phaseCalls] at hfirst
    simp [phaseCalls, TccQuery.called?, hfirst, replicate_succ]

theorem Tries.phaseCalls_of_ne
    (h : Tries env phase pDef timeoutMs prepared attempt remaining trace
      reply) (hne : phase' ≠ phase) :
    phaseCalls phase' trace = [] := by
  apply filterMap_eq_nil_iff.mpr
  intro query hmem
  cases query with
  | invoke invoked participant number timeoutMs' prepared' =>
    have hphase := (h.mem_invoke hmem).1
    simp only [TccQuery.called?]
    rw [if_neg]
    rw [hphase]
    exact fun heq => hne heq.symm
  | sleep _ _ _ _ => rfl
  | notify _ => rfl
  | persistState _ => rfl
  | markCompleted _ => rfl

theorem Tries.returned_iff (h : Tries env phase pDef timeoutMs prepared attempt remaining trace
      reply) {participant : ι} :
    Returned env phase' participant trace ↔
      phase' = phase ∧ participant = pDef.id ∧ ∃ value, reply = .ok value := by
  constructor
  · intro hreturned
    obtain ⟨number, timeoutMs', prepared', value, hmem, hok⟩ := hreturned
    obtain ⟨hphase, hparticipant, _⟩ := h.mem_invoke hmem
    refine ⟨hphase, hparticipant, ?_⟩
    induction h with
    | last hreply hend =>
      cases mem_singleton.mp hmem
      exact ⟨value, hreply.symm.trans hok⟩
    | interrupted herror =>
      rcases mem_cons.mp hmem with hcall | hsleep
      · cases hcall
        rw [herror] at hok
        cases hok
      · cases mem_singleton.mp hsleep
    | again herror hasides _ ih =>
      rcases mem_append.mp hmem with hfirst | hrest
      · rcases mem_cons.mp hfirst with hcall | haside
        · cases hcall
          rw [herror] at hok
          cases hok
        · obtain ⟨backoffMs, hsleep⟩ := hasides _ haside
          cases hsleep
      · exact ih hrest
  · intro hok
    obtain ⟨hphase, hparticipant, value, hvalue⟩ := hok
    rw [hphase, hparticipant]
    induction h with
    | last hreply hend =>
      exact ⟨_, _, _, value, mem_singleton_self _, hreply.trans hvalue⟩
    | interrupted herror => cases hvalue
    | again herror hasides _ ih =>
      exact returned_append.mpr (Or.inr (ih hvalue))

theorem Tries.called_iff (h : Tries env phase pDef timeoutMs prepared attempt remaining trace
      reply) {participant : ι} :
    Called phase' participant trace ↔ phase' = phase ∧ participant = pDef.id ∧
        ∃ kwargs, prepared = .ok kwargs := by
  constructor
  · intro hcalled
    obtain ⟨number, timeoutMs', kwargs, hmem⟩ := hcalled
    obtain ⟨hphase, hparticipant, hprepared⟩ := h.mem_invoke hmem
    exact ⟨hphase, hparticipant, kwargs, hprepared.symm⟩
  · intro hok
    obtain ⟨hphase, hparticipant, kwargs, hprepared⟩ := hok
    have hfirst := h.first_mem
    rw [hprepared] at hfirst
    rw [hphase, hparticipant]
    exact ⟨attempt, timeoutMs, kwargs, hfirst⟩

theorem Tries.lastCall [DecidableEq ι]
    (h : Tries env phase pDef timeoutMs prepared attempt remaining trace reply) :
    ∃ query, lastCall? phase pDef.id trace = some query ∧
      (env.answer query = reply ∨ reply = .error .cancelled) := by
  induction h with
  | last hreply hend =>
    exact ⟨_, by simp [lastCall?, TccQuery.called?], Or.inl hreply⟩
  | @interrupted number _ _ _ herror =>
    exact ⟨.invoke phase pDef.id number timeoutMs prepared,
      by simp [lastCall?, TccQuery.called?], Or.inr rfl⟩
  | again herror hasides _ ih =>
    obtain ⟨query, hquery, hanswer⟩ := ih
    refine ⟨query, ?_, hanswer⟩
    unfold lastCall? at hquery ⊢
    rw [filter_append, List.getLast?_append, hquery]
    rfl

end Facts

end Attempts

end TccRun

end PyFly.Tcc
