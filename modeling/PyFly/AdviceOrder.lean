import PyFly.AdvisedCalls

/-!
# The order of the advice around a call

One `try` statement holds the method and the `@after_returning` advice, so an
advice which raises there takes the way of a method which raises.
-/

namespace PyFly.Aop

open List

inductive AdviceEvent (β E : Type)
  | advice (binding : AdviceBinding β) (raised : Option E)
  | method (raised : Option E)

/-- The code behind the handlers of the bindings, and which of the raised
objects are an `Exception`. -/
structure AdviceCode (β σ A V E : Type) where
  handler : β × List Char → Handler σ A V E
  around : β × List Char → JoinPoint A V E → Advice σ V E
  isException : E → Bool

structure Advised (β σ E : Type) where
  raised : Option E
  events : List (AdviceEvent β E)
  world : σ

structure Called (β σ A V E : Type) where
  result : Except E V
  jp : JoinPoint A V E
  events : List (AdviceEvent β E)
  world : σ

variable {β σ A V E : Type}

namespace AdviceCode

variable (code : AdviceCode β σ A V E) (bindings : List (AdviceBinding β))

/-! ## The wrapper with its events -/

def advise : List (AdviceBinding β) → JoinPoint A V E → σ → Advised β σ E
  | [], _, world => ⟨none, [], world⟩
  | binding :: bindings, jp, world =>
    match code.handler binding.handler jp world with
    | (.ok _, world) =>
      let rest := advise bindings jp world
      { rest with events := .advice binding none :: rest.events }
    | (.error error, world) =>
      ⟨some error, [.advice binding (some error)], world⟩

/-- The `except` clause, which lets a `BaseException` pass. -/
def except (jp : JoinPoint A V E) (error : E) (world : σ) : Called β σ A V E :=
  if code.isException error then
    let jp := { jp with exception := some error }
    let throwing := code.advise (ofType .afterThrowing bindings) jp world
    ⟨.error (throwing.raised.getD error), jp, throwing.events, throwing.world⟩
  else ⟨.error error, jp, [], world⟩

/-- The `try` statement without its `finally` clause. -/
def guarded (jp : JoinPoint A V E) (body : σ → Except E V × σ) (world : σ) : Called β σ A V E :=
  match body world with
  | (.error error, world) =>
    let caught := code.except bindings jp error world
    { caught with events := .method (some error) :: caught.events }
  | (.ok value, world) =>
    let jp := { jp with returnValue := some value }
    let returning := code.advise (ofType .afterReturning bindings) jp world
    match returning.raised with
    | none => ⟨.ok value, jp, .method none :: returning.events, returning.world⟩
    | some error =>
      let caught := code.except bindings jp error returning.world
      { caught with
        events := .method none :: (returning.events ++ caught.events) }

/-- The body of the `try` statement: the around chain of a coroutine function,
or the method. -/
def body (isAsync : Bool) (target : Target σ A V E) (args : A) : σ → Except E V × σ :=
  if isAsync then fun world =>
    let ran := runChain ((ofType .around bindings).map fun binding =>
      code.around binding.handler { args := args }) target args world
    (ran.result, ran.world)
  else target args

/-- `wrapper` of `_build_async_wrapper` and of `_build_sync_wrapper` -/
def call (isAsync : Bool) (target : Target σ A V E) (args : A) (world : σ) : Called β σ A V E :=
  let jp : JoinPoint A V E := { args := args }
  let before := code.advise (ofType .before bindings) jp world
  match before.raised with
  | some error => ⟨.error error, jp, before.events, before.world⟩
  | none =>
    let tried := code.guarded bindings jp
      (code.body bindings isAsync target args) before.world
    let after := code.advise (ofType .after bindings) tried.jp tried.world
    { result := match after.raised with
        | none => tried.result
        | some error => .error error
      jp := tried.jp
      events := before.events ++ (tried.events ++ after.events)
      world := after.world }

end AdviceCode

namespace AdviceEvent

def isBefore : AdviceEvent β E → Bool
  | advice binding _ => binding.adviceType = .before
  | method _ => false

def raised : AdviceEvent β E → Option E
  | advice _ raised => raised
  | method raised => raised

end AdviceEvent

def ranOf (adviceType : AdviceType) (events : List (AdviceEvent β E)) :
    List (AdviceBinding β) :=
  events.filterMap fun
    | .advice binding _ =>
      if binding.adviceType = adviceType then some binding else none
    | .method _ => none

/-- What the kinds of advice promise about one call. -/
structure InOrder (bindings : List (AdviceBinding β))
    (events : List (AdviceEvent β E)) (result : Except E V) : Prop where
  first : events.Pairwise fun earlier later =>
    (later.isBefore → earlier.isBefore) ∧ (earlier.isBefore → earlier.raised = none)
  before : ranOf .before events <+: ofType .before bindings
  sorted : (ranOf .before events).Pairwise fun earlier later =>
    earlier.aspectOrder ≤ later.aspectOrder
  entered : (∀ event ∈ events, event.isBefore → event.raised = none) →
    ranOf .before events = ofType .before bindings ∧ ∃ raised, .method raised ∈ events
  returned : ∀ raised, .method raised ∈ events →
    ranOf .afterReturning events ≠ [] → raised = none
  raised : ∀ raised, .method raised ∈ events → ranOf .afterThrowing events ≠ [] → raised ≠ none
  either : ranOf .afterReturning events = [] ∨ ranOf .afterThrowing events = []
  after : ∀ raised, .method raised ∈ events →
    (ranOf .after events).Perm (ofType .after bindings)
  passed : ∀ error, .method (some error) ∈ events → result = .error error

/-! ## One loop over bindings -/

@[simp] theorem ranOf_nil (adviceType : AdviceType) :
    ranOf adviceType ([] : List (AdviceEvent β E)) = [] := rfl

@[simp] theorem ranOf_append (adviceType : AdviceType)
    (events others : List (AdviceEvent β E)) :
    ranOf adviceType (events ++ others) = ranOf adviceType events ++ ranOf adviceType others :=
  filterMap_append

@[simp] theorem ranOf_method_cons (adviceType : AdviceType)
    (raised : Option E) (events : List (AdviceEvent β E)) :
    ranOf adviceType (.method raised :: events) = ranOf adviceType events :=
  rfl

theorem ranOf_advice_cons {adviceType : AdviceType}
    {binding : AdviceBinding β} (raised : Option E)
    (events : List (AdviceEvent β E))
    (htype : binding.adviceType = adviceType) :
    ranOf adviceType (.advice binding raised :: events) =
      binding :: ranOf adviceType events := by
  simp [ranOf, htype]

theorem type_of_mem_ofType {adviceType : AdviceType}
    {bindings : List (AdviceBinding β)} {binding : AdviceBinding β}
    (hbinding : binding ∈ ofType adviceType bindings) :
    binding.adviceType = adviceType := by
  simpa using (mem_filter.mp hbinding).2

namespace AdviceCode

variable {code : AdviceCode β σ A V E} {bindings : List (AdviceBinding β)}
  {jp : JoinPoint A V E} {world : σ}

theorem mem_advise {event : AdviceEvent β E}
    (hevent : event ∈ (code.advise bindings jp world).events) :
    ∃ binding ∈ bindings, ∃ raised, event = .advice binding raised := by
  induction bindings generalizing world with
  | nil => cases hevent
  | cons binding bindings ih =>
    unfold advise at hevent
    split at hevent
    · rcases mem_cons.mp hevent with rfl | hevent
      · exact ⟨binding, mem_cons_self, none, rfl⟩
      · obtain ⟨other, hother, raised, rfl⟩ := ih hevent
        exact ⟨other, mem_cons_of_mem _ hother, raised, rfl⟩
    · rw [mem_singleton.mp hevent]
      exact ⟨binding, mem_cons_self, _, rfl⟩

theorem method_notMem_advise (raised : Option E) :
    .method raised ∉ (code.advise bindings jp world).events := by
  intro hevent
  obtain ⟨binding, -, other, hbinding⟩ := mem_advise hevent
  cases hbinding

variable {adviceType : AdviceType}

theorem ranOf_advise_of_ne {other : AdviceType} (hne : adviceType ≠ other) :
    ranOf other (code.advise (ofType adviceType bindings) jp world).events = [] := by
  rw [ranOf, filterMap_eq_nil_iff]
  intro event hevent
  obtain ⟨binding, hbinding, raised, rfl⟩ := mem_advise hevent
  simp [type_of_mem_ofType hbinding, hne]

theorem ranOf_advise_initial (htype : ∀ binding ∈ bindings, binding.adviceType = adviceType) :
    ranOf adviceType (code.advise bindings jp world).events <+: bindings := by
  induction bindings generalizing world with
  | nil => exact prefix_refl _
  | cons binding bindings ih =>
    have hbinding := htype binding mem_cons_self
    have hrest := fun other hother =>
      htype other (mem_cons_of_mem binding hother)
    unfold advise
    split
    · rw [ranOf_advice_cons _ _ hbinding]
      exact cons_prefix_cons.mpr ⟨rfl, ih hrest⟩
    · rw [ranOf_advice_cons _ _ hbinding]
      exact cons_prefix_cons.mpr ⟨rfl, nil_prefix⟩

theorem ranOf_advise_eq_iff (htype : ∀ binding ∈ bindings, binding.adviceType = adviceType) :
    ranOf adviceType (code.advise bindings jp world).events = bindings ↔
      (code.advise bindings.dropLast jp world).raised = none := by
  induction bindings generalizing world with
  | nil => exact iff_of_true rfl rfl
  | cons binding bindings ih =>
    have hbinding := htype binding mem_cons_self
    have hrest := fun other hother =>
      htype other (mem_cons_of_mem binding hother)
    cases bindings with
    | nil =>
      apply iff_of_true
      · unfold advise
        split
        · exact ranOf_advice_cons _ _ hbinding
        · exact ranOf_advice_cons _ _ hbinding
      · rfl
    | cons next bindings =>
      rw [dropLast_cons_cons]
      cases hrun : code.handler binding.handler jp world with
      | mk result world =>
        cases result with
        | ok _ =>
          rw [advise, advise]
          simp only [hrun]
          rw [ranOf_advice_cons _ _ hbinding, cons_inj_right]
          exact ih hrest
        | error error =>
          simp only [advise, hrun]
          rw [ranOf_advice_cons _ _ hbinding]
          simp

theorem ranOf_advise_eq (htype : ∀ binding ∈ bindings, binding.adviceType = adviceType)
    (hraised : (code.advise bindings jp world).raised = none) :
    ranOf adviceType (code.advise bindings jp world).events = bindings := by
  induction bindings generalizing world with
  | nil => rfl
  | cons binding bindings ih =>
    have hrest := fun other hother =>
      htype other (mem_cons_of_mem binding hother)
    unfold advise at hraised ⊢
    split at hraised
    · rw [ranOf_advice_cons _ _ (htype binding mem_cons_self)]
      rw [ih hrest hraised]
    · cases hraised

theorem pairwise_advise : (code.advise bindings jp world).events.Pairwise fun earlier _ =>
      earlier.raised = none := by
  induction bindings generalizing world with
  | nil => exact List.Pairwise.nil
  | cons binding bindings ih =>
    unfold advise
    split
    · exact List.Pairwise.cons (fun _ _ => rfl) ih
    · exact pairwise_singleton _ _

theorem raised_of_mem_advise (hraised : (code.advise bindings jp world).raised = none)
    {event : AdviceEvent β E}
    (hevent : event ∈ (code.advise bindings jp world).events) :
    event.raised = none := by
  induction bindings generalizing world with
  | nil => cases hevent
  | cons binding bindings ih =>
    cases hrun : code.handler binding.handler jp world with
    | mk result after =>
      cases result with
      | ok _ =>
        simp only [advise, hrun] at hraised hevent
        rcases mem_cons.mp hevent with rfl | hevent
        · rfl
        · exact ih hraised hevent
      | error error =>
        simp only [advise, hrun] at hraised
        cases hraised

theorem exists_raised_of_advise {error : E}
    (hraised : (code.advise bindings jp world).raised = some error) :
    ∃ event ∈ (code.advise bindings jp world).events, event.raised = some error := by
  induction bindings generalizing world with
  | nil => cases hraised
  | cons binding bindings ih =>
    unfold advise at hraised ⊢
    split at hraised
    · obtain ⟨event, hevent, herror⟩ := ih hraised
      exact ⟨event, mem_cons_of_mem _ hevent, herror⟩
    · exact ⟨_, mem_singleton_self _, hraised⟩

/-! ## The events of a call -/

variable (code bindings)

/-- What the `except` clause raises in place of the exception. -/
def thrown (jp : JoinPoint A V E) (error : E) (world : σ) : Option E :=
  if code.isException error then
    (code.advise (ofType .afterThrowing bindings)
      { jp with exception := some error } world).raised
  else none

/-- No after advice but the last one raises.  Past a method which raised the
last exception is that of the method, and past one which returned no exception
reaches an `@after_throwing` advice. -/
def FailsInTurn (isAsync : Bool) (target : Target σ A V E) (args : A) (world : σ) : Prop :=
  let jp : JoinPoint A V E := { args := args }
  let before := code.advise (ofType .before bindings) jp world
  let body := code.body bindings isAsync target args
  let tried := code.guarded bindings jp body before.world
  let after := ofType .after bindings
  before.raised = none → (code.advise after.dropLast tried.jp tried.world).raised = none ∧
    match body before.world with
    | (.error error, world) => ∀ other, (code.advise after tried.jp tried.world).raised.or
          (code.thrown bindings jp error world) = some other → other = error
    | (.ok value, world) => ∀ error, (code.advise (ofType .afterReturning bindings)
          { jp with returnValue := some value } world).raised = some error →
        code.isException error → ofType .afterThrowing bindings = []

end AdviceCode

structure AfterEntry (bindings : List (AdviceBinding β)) (outcome : Option E)
    (events : List (AdviceEvent β E)) (result : Except E V) : Prop where
  returned : ranOf .afterReturning events ≠ [] → outcome = none
  raised : ranOf .afterThrowing events ≠ [] → outcome ≠ none
  after : (ranOf .after events).Perm (ofType .after bindings)
  passed : ∀ error, outcome = some error → result = .error error

namespace AdviceCode

variable {code : AdviceCode β σ A V E} {bindings : List (AdviceBinding β)}
  {jp : JoinPoint A V E} {world : σ}

variable {events : List (AdviceEvent β E)}

theorem ranOf_before_eq_nil (hevents : ∀ event ∈ events, event.isBefore = false) :
    ranOf .before events = [] := by
  rw [ranOf, filterMap_eq_nil_iff]
  intro event hevent
  have hnot := hevents event hevent
  cases event with
  | advice binding raised => simpa [AdviceEvent.isBefore] using hnot
  | method raised => rfl

variable {adviceType : AdviceType} {event : AdviceEvent β E}

theorem isBefore_advise (hevent : event ∈
      (code.advise (ofType adviceType bindings) jp world).events) :
    event.isBefore = decide (adviceType = .before) := by
  obtain ⟨binding, hbinding, raised, rfl⟩ := mem_advise hevent
  rw [AdviceEvent.isBefore, type_of_mem_ofType hbinding]

theorem sorted_ranOf_before (hsorted : bindings.Pairwise fun earlier later =>
      earlier.aspectOrder ≤ later.aspectOrder) :
    (ranOf .before (code.advise (ofType .before bindings) jp
      world).events).Pairwise fun earlier later =>
        earlier.aspectOrder ≤ later.aspectOrder := by
  have hran : ranOf .before (code.advise (ofType .before bindings) jp world).events <+:
        ofType .before bindings :=
    ranOf_advise_initial fun _ => type_of_mem_ofType
  exact (hsorted.filter _).sublist hran.sublist

variable {error : E} {result : Except E V}

theorem inOrder_of_raised (hsorted : bindings.Pairwise fun earlier later =>
      earlier.aspectOrder ≤ later.aspectOrder)
    (hraised : (code.advise (ofType .before bindings) jp world).raised = some error) :
    InOrder bindings (code.advise (ofType .before bindings) jp world).events result where
  first := by
    apply List.Pairwise.imp_of_mem _ pairwise_advise
    intro earlier later hearlier _ hnone
    exact ⟨fun _ => by simp [isBefore_advise hearlier], fun _ => hnone⟩
  before := ranOf_advise_initial fun _ => type_of_mem_ofType
  sorted := sorted_ranOf_before hsorted
  entered := by
    intro hnone
    obtain ⟨event, hevent, herror⟩ := exists_raised_of_advise hraised
    have hbefore := hnone event hevent (by simp [isBefore_advise hevent])
    rw [hbefore] at herror
    cases herror
  returned := fun raised hmethod => absurd hmethod (method_notMem_advise raised)
  raised := fun raised hmethod => absurd hmethod (method_notMem_advise raised)
  either := .inl (ranOf_advise_of_ne (by decide))
  after := fun raised hmethod => absurd hmethod (method_notMem_advise raised)
  passed := fun error hmethod => absurd hmethod (method_notMem_advise _)

theorem inOrder_iff_afterEntry {outcome : Option E}
    (hsorted : bindings.Pairwise fun earlier later =>
      earlier.aspectOrder ≤ later.aspectOrder)
    (hbefore : (code.advise (ofType .before bindings) jp world).raised = none)
    (hevents : ∀ event ∈ events, event.isBefore = false ∧ ∀ raised, event ≠ .method raised) :
    InOrder bindings ((code.advise (ofType .before bindings) jp world).events ++
          .method outcome :: events) result ↔
      AfterEntry bindings outcome events result := by
  have hran : ∀ adviceType, adviceType ≠ .before → ranOf adviceType
        ((code.advise (ofType .before bindings) jp world).events ++
          .method outcome :: events) = ranOf adviceType events := by
    intro adviceType hne
    rw [ranOf_append, ranOf_advise_of_ne hne.symm]
    rfl
  have hmethod : ∀ raised, .method raised ∈
      (code.advise (ofType .before bindings) jp world).events ++
        .method outcome :: events ↔ raised = outcome := by
    intro raised
    have hnot : (.method raised : AdviceEvent β E) ∉ events :=
      fun hevent => (hevents _ hevent).2 raised rfl
    simp [method_notMem_advise, hnot]
  have hrest : ranOf .before events = [] :=
    ranOf_before_eq_nil fun event hevent => (hevents event hevent).1
  have hfirst : ranOf .before ((code.advise (ofType .before bindings) jp world).events ++
        .method outcome :: events) = ofType .before bindings := by
    rw [ranOf_append, ranOf_method_cons, hrest, append_nil]
    exact ranOf_advise_eq (fun _ => type_of_mem_ofType) hbefore
  constructor
  · intro h
    exact {
      returned := by
        rw [← hran .afterReturning (by decide)]
        exact h.returned outcome ((hmethod outcome).mpr rfl)
      raised := by
        rw [← hran .afterThrowing (by decide)]
        exact h.raised outcome ((hmethod outcome).mpr rfl)
      after := by
        rw [← hran .after (by decide)]
        exact h.after outcome ((hmethod outcome).mpr rfl)
      passed := fun error herror =>
        h.passed error ((hmethod (some error)).mpr herror.symm) }
  · intro h
    have hnot : ∀ later ∈ .method outcome :: events, later.isBefore = false := by
      intro later hlater
      rcases mem_cons.mp hlater with rfl | hlater
      · rfl
      · exact (hevents later hlater).1
    exact {
      first := by
        rw [pairwise_append]
        refine ⟨?_, ?_, ?_⟩
        · apply List.Pairwise.imp_of_mem _ pairwise_advise
          intro earlier later hearlier _ hnone
          exact ⟨fun _ => by simp [isBefore_advise hearlier], fun _ => hnone⟩
        · apply List.Pairwise.imp_of_mem _ (pairwise_of_forall
            (R := fun _ _ => True) fun _ _ => trivial)
          intro earlier later hearlier hlater _
          simp [hnot earlier hearlier, hnot later hlater]
        · intro earlier hearlier later hlater
          exact ⟨fun _ => by simp [isBefore_advise hearlier],
            fun _ => raised_of_mem_advise hbefore hearlier⟩
      before := by simp [hfirst]
      sorted := by
        rw [hfirst]
        exact hsorted.filter _
      entered := fun _ => ⟨hfirst, outcome, (hmethod outcome).mpr rfl⟩
      returned := by
        intro raised hraised
        rw [(hmethod raised).mp hraised, hran .afterReturning (by decide)]
        exact h.returned
      raised := by
        intro raised hraised
        rw [(hmethod raised).mp hraised, hran .afterThrowing (by decide)]
        exact h.raised
      either := by
        rw [hran .afterReturning (by decide), hran .afterThrowing (by decide)]
        by_contra hboth
        rw [not_or] at hboth
        exact h.raised hboth.2 (h.returned hboth.1)
      after := by
        intro raised _
        rw [hran .after (by decide)]
        exact h.after
      passed := fun error herror =>
        h.passed error ((hmethod (some error)).mp herror).symm }

theorem events_except (error : E) :
    (code.except bindings jp error world).events = if code.isException error then
        (code.advise (ofType .afterThrowing bindings)
          { jp with exception := some error } world).events
      else [] := by
  unfold except
  split <;> rfl

theorem mem_events_except (hevent : event ∈ (code.except bindings jp error world).events) :
    event ∈ (code.advise (ofType .afterThrowing bindings)
      { jp with exception := some error } world).events := by
  rw [events_except] at hevent
  split at hevent
  · exact hevent
  · cases hevent

theorem result_except (error : E) : (code.except bindings jp error world).result =
      .error ((code.thrown bindings jp error world).getD error) := by
  unfold except thrown
  split <;> rfl

theorem ranOf_advise_eq_nil_iff
    (htype : ∀ binding ∈ bindings, binding.adviceType = adviceType) :
    ranOf adviceType (code.advise bindings jp world).events = [] ↔ bindings = [] := by
  cases bindings with
  | nil => exact iff_of_true rfl rfl
  | cons binding bindings =>
    have hbinding := htype binding mem_cons_self
    unfold advise
    split
    · simp [ranOf_advice_cons _ _ hbinding]
    · simp [ranOf_advice_cons _ _ hbinding]

/-- What follows the method in the `try` statement. -/
theorem mem_events_guarded {body : σ → Except E V × σ}
    (hevent : event ∈ (code.guarded bindings jp body world).events.tail) :
    ∃ adviceType jp world, adviceType ≠ .before ∧ event ∈
      (code.advise (ofType adviceType bindings) jp world).events := by
  unfold guarded at hevent
  split at hevent
  · exact ⟨_, _, _, by decide, mem_events_except hevent⟩
  · dsimp only at hevent
    split at hevent
    · exact ⟨_, _, _, by decide, hevent⟩
    · rcases mem_append.mp hevent with hevent | hevent
      · exact ⟨.afterReturning, _, _, by decide, hevent⟩
      · exact ⟨.afterThrowing, _, _, by decide, mem_events_except hevent⟩

theorem ranOf_events_except (error : E) (hne : adviceType ≠ .afterThrowing) :
    ranOf adviceType (code.except bindings jp error world).events = [] := by
  rw [events_except]
  split
  · exact ranOf_advise_of_ne hne.symm
  · rfl

theorem ranOf_afterThrowing_except (error : E) :
    ranOf .afterThrowing (code.except bindings jp error world).events = [] ↔
      (code.isException error → ofType .afterThrowing bindings = []) := by
  rw [events_except]
  split
  · rename_i hexception
    simp [hexception, ranOf_advise_eq_nil_iff fun _ => type_of_mem_ofType]
  · rename_i hexception
    simp [hexception]

section Returned

variable {body : σ → Except E V × σ} {value : V} {entry : σ}

theorem guarded_of_returned (hbody : body world = (.ok value, entry))
    (hraised : (code.advise (ofType .afterReturning bindings)
      { jp with returnValue := some value } entry).raised = none) :
    (code.guarded bindings jp body world).events = .method none ::
      (code.advise (ofType .afterReturning bindings)
        { jp with returnValue := some value } entry).events := by
  simp only [guarded, hbody, hraised]

theorem guarded_of_failed {error : E} (hbody : body world = (.ok value, entry))
    (hraised : (code.advise (ofType .afterReturning bindings)
      { jp with returnValue := some value } entry).raised = some error) :
    (code.guarded bindings jp body world).events = .method none ::
      ((code.advise (ofType .afterReturning bindings)
        { jp with returnValue := some value } entry).events ++
      (code.except bindings { jp with returnValue := some value } error
        (code.advise (ofType .afterReturning bindings)
          { jp with returnValue := some value } entry).world).events) := by
  simp only [guarded, hbody, hraised]

/-- Past a method which returned, only a failing `@after_returning` advice
brings `@after_throwing` advice. -/
theorem ranOf_afterThrowing_returned (hbody : body world = (.ok value, entry)) :
    ranOf .afterThrowing (code.guarded bindings jp body world).events = [] ↔
      ∀ error, (code.advise (ofType .afterReturning bindings)
          { jp with returnValue := some value } entry).raised = some error →
        code.isException error → ofType .afterThrowing bindings = [] := by
  cases hraised : (code.advise (ofType .afterReturning bindings)
      { jp with returnValue := some value } entry).raised with
  | none =>
    rw [guarded_of_returned hbody hraised, ranOf_method_cons, ranOf_advise_of_ne (by decide)]
    simp
  | some error =>
    rw [guarded_of_failed hbody hraised, ranOf_method_cons, ranOf_append,
      ranOf_advise_of_ne (by decide), nil_append,
      ranOf_afterThrowing_except]
    simp

theorem ranOf_after_returned (hbody : body world = (.ok value, entry)) :
    ranOf .after (code.guarded bindings jp body world).events = [] := by
  cases hraised : (code.advise (ofType .afterReturning bindings)
      { jp with returnValue := some value } entry).raised with
  | none =>
    rw [guarded_of_returned hbody hraised, ranOf_method_cons]
    exact ranOf_advise_of_ne (by decide)
  | some error =>
    rw [guarded_of_failed hbody hraised, ranOf_method_cons, ranOf_append,
      ranOf_advise_of_ne (by decide), ranOf_events_except error (by decide)]
    rfl

theorem head_events_returned (hbody : body world = (.ok value, entry)) :
    (code.guarded bindings jp body world).events = .method none ::
      (code.guarded bindings jp body world).events.tail := by
  cases hraised : (code.advise (ofType .afterReturning bindings)
      { jp with returnValue := some value } entry).raised with
  | none => rw [guarded_of_returned hbody hraised, tail_cons]
  | some error => rw [guarded_of_failed hbody hraised, tail_cons]

end Returned

theorem events_call {isAsync : Bool} {target : Target σ A V E} {args : A}
    (hbefore : (code.advise (ofType .before bindings) { args := args } world).raised = none) :
    let tried := code.guarded bindings { args := args }
      (code.body bindings isAsync target args)
      (code.advise (ofType .before bindings) { args := args } world).world
    (code.call bindings isAsync target args world).events =
      (code.advise (ofType .before bindings) { args := args } world).events ++
        (tried.events ++ (code.advise (ofType .after bindings) tried.jp
          tried.world).events) := by
  simp only [call, hbefore]

theorem after_perm_iff (hevents : ranOf .after events = []) :
    (ranOf .after (events ++ (code.advise (ofType .after bindings) jp world).events)).Perm
        (ofType .after bindings) ↔
      (code.advise (ofType .after bindings).dropLast jp world).raised =
        none := by
  have htype : ∀ binding ∈ ofType .after bindings,
      binding.adviceType = .after := fun _ => type_of_mem_ofType
  rw [ranOf_append, hevents, nil_append, ← ranOf_advise_eq_iff htype]
  constructor
  · intro hperm
    exact (ranOf_advise_initial htype).eq_of_length hperm.length_eq
  · intro hall
    rw [hall]

theorem afterEntry_of_returned {body : σ → Except E V × σ} {value : V}
    {entry : σ} (hbody : body world = (.ok value, entry)) :
    let tried := code.guarded bindings jp body world
    AfterEntry bindings none (tried.events.tail ++
        (code.advise (ofType .after bindings) tried.jp tried.world).events)
        result ↔
      (code.advise (ofType .after bindings).dropLast tried.jp tried.world).raised = none ∧
      ∀ error, (code.advise (ofType .afterReturning bindings)
          { jp with returnValue := some value } entry).raised = some error →
        code.isException error → ofType .afterThrowing bindings = [] := by
  intro tried
  have hhead : tried.events = .method none :: tried.events.tail :=
    head_events_returned hbody
  have htail : ∀ adviceType, ranOf adviceType tried.events.tail =
      ranOf adviceType tried.events := by
    intro adviceType
    conv_rhs => rw [hhead, ranOf_method_cons]
  have hthrowing : ranOf .afterThrowing tried.events = [] ↔ _ :=
    ranOf_afterThrowing_returned hbody
  have hafter : ranOf .after tried.events.tail = [] := by
    rw [htail]
    exact ranOf_after_returned hbody
  rw [← hthrowing, ← after_perm_iff hafter]
  constructor
  · intro h
    refine ⟨h.after, ?_⟩
    by_contra hran
    apply h.raised _ rfl
    rw [ranOf_append, htail]
    exact fun happend => hran (append_eq_nil_iff.mp happend).1
  · rintro ⟨hperm, hran⟩
    exact {
      returned := fun _ => rfl
      raised := by
        intro hne
        rw [ranOf_append, htail, hran, nil_append,
          ranOf_advise_of_ne (by decide)] at hne
        exact absurd rfl hne
      after := hperm
      passed := fun error herror => by cases herror }

theorem afterEntry_of_raised {body : σ → Except E V × σ} {entry : σ}
    (hbody : body world = (.error error, entry)) :
    let tried := code.guarded bindings jp body world
    AfterEntry bindings (some error) (tried.events.tail ++
        (code.advise (ofType .after bindings) tried.jp tried.world).events)
        result ↔
      (code.advise (ofType .after bindings).dropLast tried.jp
        tried.world).raised = none ∧ result = .error error := by
  intro tried
  have htail : tried.events.tail = (code.except bindings jp error entry).events := by
    simp only [tried, guarded, hbody, tail_cons]
  have hafter : ranOf .after tried.events.tail = [] := by
    rw [htail]
    exact ranOf_events_except error (by decide)
  rw [← after_perm_iff hafter]
  constructor
  · intro h
    exact ⟨h.after, h.passed error rfl⟩
  · rintro ⟨hperm, hresult⟩
    exact {
      returned := by
        intro hne
        rw [ranOf_append, htail, ranOf_events_except error (by decide),
          ranOf_advise_of_ne (by decide)] at hne
        exact absurd rfl hne
      raised := fun _ hnone => by cases hnone
      after := hperm
      passed := by
        intro other hother
        rw [hresult, Option.some.inj hother] }

theorem result_call_of_raised {isAsync : Bool} {target : Target σ A V E} {args : A} {entry : σ}
    (hbefore : (code.advise (ofType .before bindings) { args := args }
      world).raised = none) (hbody : code.body bindings isAsync target args
      (code.advise (ofType .before bindings) { args := args } world).world =
        (.error error, entry)) :
    let tried := code.guarded bindings { args := args }
      (code.body bindings isAsync target args)
      (code.advise (ofType .before bindings) { args := args } world).world
    (code.call bindings isAsync target args world).result = .error error ↔
      ∀ other, ((code.advise (ofType .after bindings) tried.jp tried.world).raised.or
        (code.thrown bindings { args := args } error entry)) = some other → other = error := by
  intro tried
  have hresult : tried.result = .error
      ((code.thrown bindings { args := args } error entry).getD error) := by
    simp only [tried, guarded, hbody, result_except]
  have hcall : (code.call bindings isAsync target args world).result =
      match (code.advise (ofType .after bindings) tried.jp
        tried.world).raised with
      | none => tried.result
      | some error => .error error := by
    simp only [call, hbefore, tried]
  rw [hcall, hresult]
  cases (code.advise (ofType .after bindings) tried.jp tried.world).raised with
  | some other => simp
  | none =>
    cases code.thrown bindings { args := args } error entry with
    | none => simp
    | some other => simp

theorem isBefore_tail {body : σ → Except E V × σ}
    (hevent : event ∈ (code.guarded bindings jp body world).events.tail ++
      (code.advise (ofType .after bindings) (code.guarded bindings jp body world).jp
        (code.guarded bindings jp body world).world).events) :
    event.isBefore = false ∧ ∀ raised, event ≠ .method raised := by
  have hran : ∃ adviceType jp world, adviceType ≠ .before ∧ event ∈
      (code.advise (ofType adviceType bindings) jp world).events := by
    rcases mem_append.mp hevent with hevent | hevent
    · exact mem_events_guarded hevent
    · exact ⟨.after, _, _, by decide, hevent⟩
  obtain ⟨adviceType, jp, world, hne, hevent⟩ := hran
  constructor
  · rw [isBefore_advise hevent]
    exact decide_eq_false hne
  · rintro raised rfl
    exact method_notMem_advise raised hevent

theorem inOrder_call_iff (hsorted : bindings.Pairwise fun earlier later =>
      earlier.aspectOrder ≤ later.aspectOrder)
    (isAsync : Bool) (target : Target σ A V E) (args : A) (world : σ) :
    InOrder bindings (code.call bindings isAsync target args world).events
        (code.call bindings isAsync target args world).result ↔
      code.FailsInTurn bindings isAsync target args world := by
  cases hbefore : (code.advise (ofType .before bindings) { args := args } world).raised with
  | some error =>
    apply iff_of_true
    · have hcall : (code.call bindings isAsync target args world).events =
          (code.advise (ofType .before bindings) { args := args } world).events := by
        simp only [call, hbefore]
      rw [hcall]
      exact inOrder_of_raised hsorted hbefore
    · intro hnone
      rw [hbefore] at hnone
      cases hnone
  | none =>
    have hevents : (code.call bindings isAsync target args world).events = _ :=
      events_call hbefore
    rw [hevents, FailsInTurn]
    simp only [hbefore, true_imp_iff]
    cases hbody : code.body bindings isAsync target args
        (code.advise (ofType .before bindings) { args := args } world).world with
    | mk outcome entry =>
      cases outcome with
      | ok value =>
        rw [head_events_returned hbody, cons_append,
          inOrder_iff_afterEntry hsorted hbefore fun event hevent => isBefore_tail hevent]
        exact afterEntry_of_returned hbody
      | error error =>
        have hhead : (code.guarded bindings { args := args }
            (code.body bindings isAsync target args)
            (code.advise (ofType .before bindings) { args := args }
              world).world).events = .method (some error) ::
            (code.guarded bindings { args := args } (code.body bindings isAsync target args)
              (code.advise (ofType .before bindings) { args := args }
                world).world).events.tail := by
          simp only [guarded, hbody, tail_cons]
        rw [hhead, cons_append, inOrder_iff_afterEntry hsorted
          hbefore fun event hevent => isBefore_tail hevent]
        exact (afterEntry_of_raised hbody).trans (and_congr_right fun _ =>
            result_call_of_raised hbefore hbody)

end AdviceCode

theorem sorted_register {κ : Type} (types : BeanTypes β κ) (aspects : List β) :
    (aspects.foldl (register types) []).Pairwise fun earlier later =>
      earlier.aspectOrder ≤ later.aspectOrder := by
  have htotal : Std.Total fun earlier later : AdviceBinding β =>
      earlier.aspectOrder ≤ later.aspectOrder := ⟨fun _ _ => le_total _ _⟩
  have htrans : IsTrans (AdviceBinding β) fun earlier later =>
      earlier.aspectOrder ≤ later.aspectOrder := ⟨fun _ _ _ => le_trans⟩
  induction aspects using List.reverseRecOn with
  | nil => exact List.Pairwise.nil
  | append_singleton aspects aspect ih =>
    rw [foldl_append]
    exact pairwise_insertionSort _ _

/-- A woven method keeps the order of its advice exactly when the advices
which fail do so in turn. -/
theorem inOrder_woven_iff {κ : Type} (types : BeanTypes β κ)
    (aspects : List β) (bean : β) (method : Method)
    (code : AdviceCode β σ A V E) (target : Target σ A V E) (args : A)
    (world : σ) :
    let bindings := getMatching (aspects.foldl (register types) [])
      ((types.get bean).qualifiedName method)
    let called := code.call bindings method.isAsync target args world
    InOrder bindings called.events called.result ↔
      code.FailsInTurn bindings method.isAsync target args world :=
  AdviceCode.inOrder_call_iff ((sorted_register types aspects).filter _)
    method.isAsync target args world

def auditTypes : BeanTypes Bool Bool where
  classOf := id
  info
    | true =>
      { audited.info .audit with
        advice := [⟨['a'], .afterReturning, "service.Orders.place".toList⟩,
          ⟨['e'], .afterThrowing, "service.Orders.place".toList⟩]
        advice_nodup := by decide }
    | false => audited.info .orders

def auditCode : AdviceCode Bool Unit Unit ℕ ℕ where
  handler handler _ world :=
    if handler.2 = ['a'] then (.error 1, world) else (.ok (), world)
  around _ _ := .proceed .finish
  isException _ := true

/-- The failing audit has the error of a method reported which returned. -/
theorem not_inOrder_audit :
    ¬ let bindings := getMatching ([true].foldl (register auditTypes) [])
        ((auditTypes.get false).qualifiedName ⟨"place".toList, true⟩)
      let target := fun _ world => (.ok 7, world)
      let called := auditCode.call bindings true target () ()
      InOrder bindings called.events called.result := by
  intro h
  exact h.raised none mem_cons_self (cons_ne_nil _ _) rfl

end PyFly.Aop
