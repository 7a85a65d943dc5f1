import PyFly.Library.Coroutine
import PyFly.Library.ScheduledMachine
import Mathlib

/-!
# A coroutine which gathers children

The main coroutine runs its queries one at a time; some of its queries start
child coroutines and wait for them together.  The reply to such a query may be
given before every child has finished, and the children left over then go on
without the main coroutine.  The caller may throw a cancellation into the main
coroutine, which an undecided gathering passes on to the children.
-/

namespace PyFly.Library

open List

variable {Q R α β : Type}

inductive Signal (Q R : Type)
  | issued (query : Q)
  | answered (query : Q) (reply : R)

def Signal.query : Signal Q R → Q
  | .issued query => query
  | .answered query _ => query

def Signal.issues (counted : Q → Bool) : Signal Q R → Bool
  | .issued query => counted query
  | .answered _ _ => false

def Signal.answers (counted : Q → Bool) : Signal Q R → Bool
  | .issued _ => false
  | .answered query _ => counted query

structure Child (Q R β : Type) where
  code : Coroutine Q R β
  cancelRequested : Bool

/-- The environment of the coroutines: the reply to a query, left alone or
interrupted; the children a query gathers; and the reply to a gathering, once
enough of its children have results.  `collect` may use the scheduling choice
to take the results in an order of its own. -/
structure GatherRules (Q R β : Type) where
  answer : Q → R
  interrupt : Q → R
  children : Q → Option (List (Coroutine Q R β))
  collect : Q → Bool → ℕ → List (Option β) → Option R

structure Crew (Q R α β : Type) where
  main : Coroutine Q R α
  interrupted : Bool
  gathering : List (Child Q R β)
  orphans : List (Child Q R β)

inductive CrewPick
  | main (choice : ℕ)
  | child (index : ℕ)
  | orphan (index : ℕ)
  | cancelCaller
  deriving DecidableEq

namespace Child

def start (code : Coroutine Q R β) : Child Q R β := ⟨code, false⟩

def requestCancel (child : Child Q R β) : Child Q R β :=
  { child with cancelRequested := !child.code.isDone }

end Child

def opening (code : Coroutine Q R α) : List (Signal Q R) :=
  match code with
  | .done _ => []
  | .await query _ => [.issued query]

namespace GatherRules

variable (rules : GatherRules Q R β)

def spawned (code : Coroutine Q R α) : List (Child Q R β) :=
  match code with
  | .done _ => []
  | .await query _ => ((rules.children query).getD []).map Child.start

def enter (crew : Crew Q R α β) (code : Coroutine Q R α) : Crew Q R α β × List (Signal Q R) :=
  ({ main := code
     interrupted := false
     gathering := rules.spawned code
     orphans := crew.orphans ++ crew.gathering },
    opening code ++ (rules.spawned code).flatMap fun child => opening child.code)

def start (code : Coroutine Q R α) : Crew Q R α β × List (Signal Q R) :=
  rules.enter ⟨code, false, [], []⟩ code

def resumeWith (crew : Crew Q R α β) (query : Q) (resume : R → Coroutine Q R α) (reply : R) :
    Crew Q R α β × List (Signal Q R) :=
  let entered := rules.enter crew (resume reply)
  (entered.1, .answered query reply :: entered.2)

def resumeMain (choice : ℕ) (crew : Crew Q R α β) : Option (Crew Q R α β × List (Signal Q R)) :=
  match crew.main with
  | .done _ => none
  | .await query resume =>
    match rules.children query with
    | none =>
      some (rules.resumeWith crew query resume (rules.answer query))
    | some _ =>
      (rules.collect query crew.interrupted choice
        (crew.gathering.map fun child => child.code.result?)).map
          (rules.resumeWith crew query resume)

def resumeChild (child : Child Q R β) : Option (Child Q R β × List (Signal Q R)) :=
  match child.code with
  | .done _ => none
  | .await query resume =>
    let reply :=
      if child.cancelRequested then rules.interrupt query
      else rules.answer query
    some (⟨resume reply, false⟩, .answered query reply :: opening (resume reply))

def resumeAt (children : List (Child Q R β)) (index : ℕ) :
    Option (List (Child Q R β) × List (Signal Q R)) :=
  match children[index]? with
  | none => none
  | some child =>
    (rules.resumeChild child).map fun resumed =>
      (children.set index resumed.1, resumed.2)

def interruptMain (crew : Crew Q R α β) : Option (Crew Q R α β × List (Signal Q R)) :=
  match crew.main with
  | .done _ => none
  | .await query resume =>
    match rules.children query with
    | none =>
      some (rules.resumeWith crew query resume (rules.interrupt query))
    | some _ =>
      match rules.collect query crew.interrupted 0
          (crew.gathering.map fun child => child.code.result?) with
      | some _ =>
        -- the gathering is decided, its children are left as they are
        some (rules.resumeWith crew query resume (rules.interrupt query))
      | none =>
        some ({ crew with
          interrupted := true
          gathering := crew.gathering.map Child.requestCancel }, [])

def step (crew : Crew Q R α β) : CrewPick → Option (Crew Q R α β × List (Signal Q R))
  | .main choice => rules.resumeMain choice crew
  | .child index =>
    (rules.resumeAt crew.gathering index).map fun moved =>
      ({ crew with gathering := moved.1 }, moved.2)
  | .orphan index =>
    (rules.resumeAt crew.orphans index).map fun moved =>
      ({ crew with orphans := moved.1 }, moved.2)
  | .cancelCaller => rules.interruptMain crew

end GatherRules

def crewMachine (rules : GatherRules Q R β) : Machine (Crew Q R α β) CrewPick (Signal Q R) where
  step := rules.step

def GatherRules.execute (rules : GatherRules Q R β) (code : Coroutine Q R α)
    (schedule : List CrewPick) : Execution (Crew Q R α β) (Signal Q R) :=
  (crewMachine rules).runFrom ⟨(rules.start code).1, (rules.start code).2⟩ schedule

namespace GatherRules

variable {rules : GatherRules Q R β}

inductive Transition (rules : GatherRules Q R β) (crew : Crew Q R α β) :
    CrewPick → Crew Q R α β → List (Signal Q R) → Prop
  | replied (pick : CrewPick) (query : Q) (resume : R → Coroutine Q R α)
      (reply : R) (hmain : crew.main = .await query resume)
      (hplain : rules.children query = none)
      (hreply : (pick ≠ .cancelCaller ∧ reply = rules.answer query) ∨
        (pick = .cancelCaller ∧ reply = rules.interrupt query)) :
      Transition rules crew pick (rules.resumeWith crew query resume reply).1
        (rules.resumeWith crew query resume reply).2
  | gathered (choice : ℕ) (query : Q) (resume : R → Coroutine Q R α)
      (codes : List (Coroutine Q R β)) (reply : R)
      (hmain : crew.main = .await query resume)
      (hchildren : rules.children query = some codes)
      (hcollect : rules.collect query crew.interrupted choice
        (crew.gathering.map fun child => child.code.result?) = some reply) :
      Transition rules crew (.main choice) (rules.resumeWith crew query resume reply).1
        (rules.resumeWith crew query resume reply).2
  | child (index : ℕ) (child : Child Q R β) (query : Q)
      (resume : R → Coroutine Q R β) (reply : R)
      (hchild : crew.gathering[index]? = some child)
      (hcode : child.code = .await query resume)
      (hreply : reply = if child.cancelRequested then rules.interrupt query
        else rules.answer query) :
      Transition rules crew (.child index) { crew with
          gathering := crew.gathering.set index ⟨resume reply, false⟩ }
        (.answered query reply :: opening (resume reply))
  | orphan (index : ℕ) (child : Child Q R β) (query : Q)
      (resume : R → Coroutine Q R β) (reply : R)
      (hchild : crew.orphans[index]? = some child)
      (hcode : child.code = .await query resume)
      (hreply : reply = if child.cancelRequested then rules.interrupt query
        else rules.answer query) :
      Transition rules crew (.orphan index) { crew with
          orphans := crew.orphans.set index ⟨resume reply, false⟩ }
        (.answered query reply :: opening (resume reply))
  | abandoned (query : Q) (resume : R → Coroutine Q R α)
      (codes : List (Coroutine Q R β)) (reply : R)
      (hmain : crew.main = .await query resume)
      (hchildren : rules.children query = some codes)
      (hcollect : rules.collect query crew.interrupted 0
        (crew.gathering.map fun child => child.code.result?) = some reply) :
      Transition rules crew .cancelCaller
        (rules.resumeWith crew query resume (rules.interrupt query)).1
        (rules.resumeWith crew query resume (rules.interrupt query)).2
  | interrupted (query : Q) (resume : R → Coroutine Q R α) (codes : List (Coroutine Q R β))
      (hmain : crew.main = .await query resume)
      (hchildren : rules.children query = some codes)
      (hcollect : rules.collect query crew.interrupted 0
        (crew.gathering.map fun child => child.code.result?) = none) :
      Transition rules crew .cancelCaller { crew with
          interrupted := true
          gathering := crew.gathering.map Child.requestCancel } []

theorem resumeAt_cases {children moved : List (Child Q R β)} {index : ℕ}
    {signals : List (Signal Q R)}
    (h : rules.resumeAt children index = some (moved, signals)) :
    ∃ child query resume reply, children[index]? = some child ∧
      child.code = .await query resume ∧
      (reply = if child.cancelRequested then rules.interrupt query
        else rules.answer query) ∧
      moved = children.set index ⟨resume reply, false⟩ ∧
      signals = .answered query reply :: opening (resume reply) := by
  unfold resumeAt at h
  cases hchild : children[index]? with
  | none =>
    rw [hchild] at h
    cases h
  | some child =>
    rw [hchild] at h
    obtain ⟨resumed, hresumed, heq⟩ := Option.map_eq_some_iff.mp h
    unfold resumeChild at hresumed
    cases hcode : child.code with
    | done result =>
      rw [hcode] at hresumed
      cases hresumed
    | await query resume =>
      rw [hcode] at hresumed
      have hsame := Option.some.inj hresumed
      rw [← hsame, Prod.mk.injEq] at heq
      exact ⟨child, query, resume, _, rfl, hcode, rfl, heq.1.symm, heq.2.symm⟩

theorem transition_of_step {crew next : Crew Q R α β} {pick : CrewPick}
    {signals : List (Signal Q R)}
    (h : rules.step crew pick = some (next, signals)) :
    Transition rules crew pick next signals := by
  cases pick with
  | main choice =>
    unfold step resumeMain at h
    cases hmain : crew.main with
    | done result =>
      rw [hmain] at h
      cases h
    | await query resume =>
      rw [hmain] at h
      dsimp only at h
      cases hchildren : rules.children query with
      | none =>
        rw [hchildren] at h
        have hsame := Option.some.inj h
        have htransition := Transition.replied (.main choice) query
          resume (rules.answer query) hmain hchildren
          (Or.inl ⟨by simp, rfl⟩)
        rw [hsame] at htransition
        exact htransition
      | some codes =>
        rw [hchildren] at h
        obtain ⟨reply, hreply, hsame⟩ := Option.map_eq_some_iff.mp h
        have htransition := Transition.gathered choice query resume
          codes reply hmain hchildren hreply
        rw [hsame] at htransition
        exact htransition
  | child index =>
    obtain ⟨moved, hmoved, heq⟩ := Option.map_eq_some_iff.mp h
    obtain ⟨child, query, resume, reply, hchild, hcode, hreply, hgathering,
      hsignals⟩ := resumeAt_cases hmoved
    rw [Prod.mk.injEq] at heq
    rw [← heq.1, ← heq.2, hgathering, hsignals]
    exact .child index child query resume reply hchild hcode hreply
  | orphan index =>
    obtain ⟨moved, hmoved, heq⟩ := Option.map_eq_some_iff.mp h
    obtain ⟨child, query, resume, reply, hchild, hcode, hreply, horphans,
      hsignals⟩ := resumeAt_cases hmoved
    rw [Prod.mk.injEq] at heq
    rw [← heq.1, ← heq.2, horphans, hsignals]
    exact .orphan index child query resume reply hchild hcode hreply
  | cancelCaller =>
    unfold step interruptMain at h
    cases hmain : crew.main with
    | done result =>
      rw [hmain] at h
      cases h
    | await query resume =>
      rw [hmain] at h
      dsimp only at h
      cases hchildren : rules.children query with
      | none =>
        rw [hchildren] at h
        have hsame := Option.some.inj h
        have htransition := Transition.replied .cancelCaller query
          resume (rules.interrupt query) hmain hchildren
          (Or.inr ⟨rfl, rfl⟩)
        rw [hsame] at htransition
        exact htransition
      | some codes =>
        rw [hchildren] at h
        dsimp only at h
        cases hcollect : rules.collect query crew.interrupted 0
            (crew.gathering.map fun child => child.code.result?) with
        | some reply =>
          rw [hcollect] at h
          have hsame := Option.some.inj h
          have htransition := Transition.abandoned query resume
            codes reply hmain hchildren hcollect
          rw [hsame] at htransition
          exact htransition
        | none =>
          rw [hcollect] at h
          simp only [Option.some.injEq, Prod.mk.injEq] at h
          rw [← h.1, ← h.2, ← hmain]
          exact .interrupted query resume codes hmain hchildren hcollect

end GatherRules

theorem isDone_of_result? {code : Coroutine Q R β}
    (h : code.result?.isSome = true) : code.isDone = true := by
  cases code with
  | done result => rfl
  | await query resume => cases h

/-! ## Finished crews -/

structure Crew.Over (result : α) (crew : Crew Q R α β) : Prop where
  main : crew.main = .done result
  gathering : crew.gathering = []
  orphans : ∀ child ∈ crew.orphans, child.code.isDone = true

theorem resumeAt_of_done {rules : GatherRules Q R β} {children : List (Child Q R β)}
    (hdone : ∀ child ∈ children, child.code.isDone = true) (index : ℕ) :
    rules.resumeAt children index = none := by
  unfold GatherRules.resumeAt
  cases hchild : children[index]? with
  | none => rfl
  | some child =>
    have hfinished := hdone child (mem_of_getElem? hchild)
    dsimp only
    unfold GatherRules.resumeChild
    cases hcode : child.code with
    | done result => rfl
    | await query resume =>
      rw [hcode] at hfinished
      cases hfinished

theorem Crew.Over.step {rules : GatherRules Q R β} {crew : Crew Q R α β}
    {result : α} (hover : crew.Over result) (pick : CrewPick) :
    rules.step crew pick = none := by
  cases pick with
  | main choice =>
    show rules.resumeMain choice crew = none
    unfold GatherRules.resumeMain
    rw [hover.main]
  | child index =>
    show (rules.resumeAt crew.gathering index).map _ = none
    rw [resumeAt_of_done (by rw [hover.gathering]; simp)]
    rfl
  | orphan index =>
    show (rules.resumeAt crew.orphans index).map _ = none
    rw [resumeAt_of_done hover.orphans]
    rfl
  | cancelCaller =>
    show rules.interruptMain crew = none
    unfold GatherRules.interruptMain
    rw [hover.main]

theorem Crew.Over.runFrom {rules : GatherRules Q R β}
    {execution : Execution (Crew Q R α β) (Signal Q R)} {result : α}
    (hover : execution.state.Over result) (schedule : List CrewPick) :
    (crewMachine rules).runFrom execution schedule = execution := by
  induction schedule with
  | nil => rfl
  | cons pick rest ih =>
    rw [Machine.runFrom_cons, Machine.advance_of_disabled (hover.step pick), ih]

/-! ## What every run preserves -/

theorem sum_map_set {γ : Type} (weight : γ → ℕ) {items : List γ}
    {index : ℕ} {old : γ} (new : γ) (h : items[index]? = some old) :
    ((items.set index new).map weight).sum + weight old =
      (items.map weight).sum + weight new := by
  induction items generalizing index with
  | nil => cases h
  | cons first rest ih =>
    cases index with
    | zero =>
      have hfirst : first = old := Option.some.inj h
      rw [hfirst]
      simp only [set_cons_zero, map_cons, sum_cons]
      omega
    | succ index =>
      have hrest := ih (show rest[index]? = some old from h)
      simp only [set_cons_succ, map_cons, sum_cons]
      omega

def Coroutine.waitsFor (counted : Q → Bool) (code : Coroutine Q R α) : ℕ :=
  match code with
  | .done _ => 0
  | .await query _ => (counted query).toNat

def Crew.waiting (counted : Q → Bool) (crew : Crew Q R α β) : ℕ :=
  crew.main.waitsFor counted + ((crew.gathering ++ crew.orphans).map fun child =>
      child.code.waitsFor counted).sum

theorem opening_issues (counted : Q → Bool) (code : Coroutine Q R α) :
    (opening code).countP (Signal.issues counted) = code.waitsFor counted := by
  cases code with
  | done result => rfl
  | await query resume =>
    have hissues : (Signal.issued query : Signal Q R).issues counted = counted query := rfl
    have hwaits : (Coroutine.await query resume).waitsFor counted = (counted query).toNat := rfl
    rw [hwaits]
    unfold opening
    rw [countP_singleton, hissues]
    cases counted query with
    | false => rfl
    | true => rfl

theorem opening_answers (counted : Q → Bool) (code : Coroutine Q R α) :
    (opening code).countP (Signal.answers counted) = 0 := by
  cases code with
  | done result => rfl
  | await query resume => rfl

theorem flatMap_opening_issues (counted : Q → Bool) (children : List (Child Q R β)) :
    (children.flatMap fun child => opening child.code).countP (Signal.issues counted) =
      (children.map fun child => child.code.waitsFor counted).sum := by
  induction children with
  | nil => rfl
  | cons child rest ih =>
    rw [flatMap_cons, countP_append, opening_issues, ih, map_cons, sum_cons]

theorem flatMap_opening_answers (counted : Q → Bool) (children : List (Child Q R β)) :
    (children.flatMap fun child => opening child.code).countP (Signal.answers counted) = 0 := by
  induction children with
  | nil => rfl
  | cons child rest ih =>
    rw [flatMap_cons, countP_append, opening_answers, ih]

def Balanced (counted : Q → Bool) (crew : Crew Q R α β) (trace : List (Signal Q R)) : Prop :=
  trace.countP (Signal.issues counted) =
    trace.countP (Signal.answers counted) + crew.waiting counted

section Balance

variable {rules : GatherRules Q R β} {counted : Q → Bool}
variable {crew next : Crew Q R α β} {trace signals : List (Signal Q R)}

theorem Balanced.resumeWith (hbalanced : Balanced counted crew trace)
    {query : Q} {resume : R → Coroutine Q R α}
    (hmain : crew.main = .await query resume) (reply : R) :
    Balanced counted (rules.resumeWith crew query resume reply).1
      (trace ++ (rules.resumeWith crew query resume reply).2) := by
  unfold Balanced Crew.waiting at hbalanced ⊢
  unfold GatherRules.resumeWith GatherRules.enter
  rw [hmain] at hbalanced
  have hissued : (Signal.answered query reply).issues counted = false := rfl
  have hanswered : (Signal.answered query reply).answers counted = counted query := rfl
  have hwaits : (Coroutine.await query resume).waitsFor counted = (counted query).toNat := rfl
  simp only [countP_append, countP_cons, opening_issues,
    opening_answers, flatMap_opening_issues, flatMap_opening_answers,
    map_append, sum_append, hissued, hanswered, hwaits]
    at hbalanced ⊢
  cases hcounted : counted query with
  | false =>
    simp only [hcounted, Bool.toNat_false] at hbalanced
    simp only [Bool.false_eq_true, if_false]
    omega
  | true =>
    simp only [hcounted, Bool.toNat_true] at hbalanced
    simp only [if_true, Bool.false_eq_true, if_false]
    omega

theorem balanced_child {children : List (Child Q R β)} {index : ℕ}
    {child : Child Q R β} {query : Q} {resume : R → Coroutine Q R β}
    (hchild : children[index]? = some child)
    (hcode : child.code = .await query resume) (reply : R)
    (rest : ℕ)
    (hbalanced : trace.countP (Signal.issues counted) =
      trace.countP (Signal.answers counted) + (rest +
        (children.map fun child => child.code.waitsFor counted).sum)) :
    (trace ++ .answered query reply :: opening (resume reply)).countP (Signal.issues counted) =
      (trace ++ .answered query reply :: opening (resume reply)).countP
          (Signal.answers counted) + (rest +
        ((children.set index ⟨resume reply, false⟩).map fun child =>
          child.code.waitsFor counted).sum) := by
  have hset := sum_map_set
    (fun child : Child Q R β => child.code.waitsFor counted)
    ⟨resume reply, false⟩ hchild
  have hwaits : child.code.waitsFor counted = (counted query).toNat := by
    rw [hcode]
    rfl
  have hissued : (Signal.answered query reply).issues counted = false := rfl
  have hanswered : (Signal.answered query reply).answers counted = counted query := rfl
  simp only [countP_append, countP_cons, opening_issues, opening_answers, hissued, hanswered]
  rw [hwaits] at hset
  cases hcounted : counted query with
  | false =>
    simp only [hcounted, Bool.toNat_false] at hset
    simp only [Bool.false_eq_true, if_false]
    omega
  | true =>
    simp only [hcounted, Bool.toNat_true] at hset
    simp only [if_true, Bool.false_eq_true, if_false]
    omega

theorem Balanced.step (hbalanced : Balanced counted crew trace) {pick : CrewPick}
    (h : rules.step crew pick = some (next, signals)) :
    Balanced counted next (trace ++ signals) := by
  cases GatherRules.transition_of_step h with
  | replied pick query resume reply hmain hplain hreply =>
    exact hbalanced.resumeWith hmain reply
  | gathered choice query resume codes reply hmain hchildren hcollect =>
    exact hbalanced.resumeWith hmain reply
  | child index child query resume reply hchild hcode hreply =>
    unfold Balanced Crew.waiting at hbalanced ⊢
    rw [map_append, sum_append] at hbalanced ⊢
    have hrest : trace.countP (Signal.issues counted) = trace.countP (Signal.answers counted) +
          (crew.main.waitsFor counted + (crew.orphans.map fun child =>
            child.code.waitsFor counted).sum +
          (crew.gathering.map fun child =>
            child.code.waitsFor counted).sum) := by
      omega
    have hnext := balanced_child hchild hcode reply _ hrest
    dsimp only
    omega
  | orphan index child query resume reply hchild hcode hreply =>
    unfold Balanced Crew.waiting at hbalanced ⊢
    rw [map_append, sum_append] at hbalanced ⊢
    have hrest : trace.countP (Signal.issues counted) = trace.countP (Signal.answers counted) +
          (crew.main.waitsFor counted + (crew.gathering.map fun child =>
            child.code.waitsFor counted).sum +
          (crew.orphans.map fun child =>
            child.code.waitsFor counted).sum) := by
      omega
    have hnext := balanced_child hchild hcode reply _ hrest
    dsimp only
    omega
  | abandoned query resume codes reply hmain hchildren hcollect =>
    exact hbalanced.resumeWith hmain (rules.interrupt query)
  | interrupted query resume codes hmain hchildren hcollect =>
    unfold Balanced Crew.waiting at hbalanced ⊢
    rw [append_nil, hbalanced]
    simp [Child.requestCancel, Function.comp_def]

theorem balanced_start (rules : GatherRules Q R β) (counted : Q → Bool)
    (code : Coroutine Q R α) :
    Balanced counted (rules.start code).1 (rules.start code).2 := by
  unfold Balanced Crew.waiting GatherRules.start GatherRules.enter
  simp only [countP_append, opening_issues, opening_answers,
    flatMap_opening_issues, flatMap_opening_answers, append_nil]
  omega

theorem balanced_execute (rules : GatherRules Q R β) (counted : Q → Bool)
    (code : Coroutine Q R α) (schedule : List CrewPick) :
    Balanced counted (rules.execute code schedule).state (rules.execute code schedule).trace :=
  Machine.runFrom_invariant (Balanced counted)
    (fun _ _ _ _ _ hbalanced hstep => hbalanced.step hstep)
    (balanced_start rules counted code) schedule

theorem issued_of_answered (rules : GatherRules Q R β)
    (code : Coroutine Q R α) (schedule : List CrewPick) {query : Q}
    {reply : R}
    (hmem : .answered query reply ∈ (rules.execute code schedule).trace) :
    .issued query ∈ (rules.execute code schedule).trace := by
  classical
  have hbalanced := balanced_execute rules (fun other => other = query) code schedule
  have hanswers : 0 < (rules.execute code schedule).trace.countP
      (Signal.answers fun other => other = query) :=
    countP_pos_iff.mpr ⟨_, hmem, by simp [Signal.answers]⟩
  have hissues : 0 < (rules.execute code schedule).trace.countP
      (Signal.issues fun other => other = query) := by
    unfold Balanced at hbalanced
    omega
  obtain ⟨signal, hsignal, hcounted⟩ := countP_pos_iff.mp hissues
  cases signal with
  | issued other =>
    rw [of_decide_eq_true hcounted] at hsignal
    exact hsignal
  | answered other value => cases hcounted

end Balance

/-! ## The dialogues behind a trace -/

def Spoken (trace : List (Signal Q R)) (code reached : Coroutine Q R α) :
    Prop :=
  ∃ dialogue, code.Leads dialogue reached ∧
    ∀ query reply, (query, reply) ∈ dialogue → .answered query reply ∈ trace

theorem Spoken.mono {trace : List (Signal Q R)}
    {code reached : Coroutine Q R α} (h : Spoken trace code reached)
    (more : List (Signal Q R)) : Spoken (trace ++ more) code reached := by
  obtain ⟨dialogue, hleads, hanswered⟩ := h
  refine ⟨dialogue, hleads, ?_⟩
  intro query reply hmem
  exact mem_append_left more (hanswered query reply hmem)

theorem Spoken.resume {trace : List (Signal Q R)}
    {code : Coroutine Q R α} {query : Q} {resume : R → Coroutine Q R α}
    (h : Spoken trace code (.await query resume)) (reply : R)
    (rest : List (Signal Q R)) :
    Spoken (trace ++ .answered query reply :: rest) code (resume reply) := by
  obtain ⟨dialogue, hleads, hanswered⟩ := h
  refine ⟨dialogue ++ [(query, reply)], .step reply hleads, ?_⟩
  intro other answer hmem
  rcases mem_append.mp hmem with hold | hnew
  · exact mem_append_left _ (hanswered other answer hold)
  · cases mem_singleton.mp hnew
    exact mem_append_right trace mem_cons_self

def Reported (trace : List (Signal Q R)) (code : Coroutine Q R β) (result : Option β) : Prop :=
  ∀ value, result = some value → Spoken trace code (.done value)

theorem spoken_of_ended {trace : List (Signal Q R)}
    {codes : List (Coroutine Q R β)} {results : List (Option β)}
    (hreported : List.Forall₂ (Reported trace) codes results)
    {result : Option β} (hmem : result ∈ results)
    (hended : result.isSome = true) :
    ∃ code ∈ codes, ∃ value, Spoken trace code (.done value) := by
  induction hreported with
  | nil => cases hmem
  | @cons code found codes results hcode _ ih =>
    rcases mem_cons.mp hmem with hsame | hlater
    · obtain ⟨value, hvalue⟩ := Option.isSome_iff_exists.mp hended
      exact ⟨code, mem_cons_self, value, hcode value (hsame ▸ hvalue)⟩
    · obtain ⟨other, hother, hspoken⟩ := ih hlater
      exact ⟨other, mem_cons_of_mem code hother, hspoken⟩

def GatherRules.Collected (rules : GatherRules Q R β)
    (trace : List (Signal Q R)) (query : Q) (reply : R) : Prop :=
  ∀ codes, rules.children query = some codes →
    ∃ interrupted choice results collected, List.Forall₂ (Reported trace) codes results ∧
        rules.collect query interrupted choice results = some collected ∧
        (reply = collected ∨ reply = rules.interrupt query)

theorem GatherRules.Collected.mono {rules : GatherRules Q R β}
    {trace : List (Signal Q R)} {query : Q} {reply : R}
    (h : rules.Collected trace query reply) (more : List (Signal Q R)) :
    rules.Collected (trace ++ more) query reply := by
  intro codes hcodes
  obtain ⟨interrupted, choice, results, collected, hreported, hrest⟩ :=
    h codes hcodes
  refine ⟨interrupted, choice, results, collected, ?_, hrest⟩
  exact hreported.imp fun code result hresult value hvalue =>
    (hresult value hvalue).mono more

def GatherRules.gathered (rules : GatherRules Q R β)
    (code : Coroutine Q R α) : List (Coroutine Q R β) :=
  match code with
  | .done _ => []
  | .await query _ => (rules.children query).getD []

structure Crew.Played (rules : GatherRules Q R β) (code : Coroutine Q R α)
    (crew : Crew Q R α β) (trace : List (Signal Q R)) : Prop where
  main : ∃ dialogue, code.Leads dialogue crew.main ∧ ∀ query reply, (query, reply) ∈ dialogue →
      .answered query reply ∈ trace ∧ rules.Collected trace query reply
  gathering : List.Forall₂ (fun code (child : Child Q R β) =>
    Spoken trace code child.code) (rules.gathered crew.main) crew.gathering

section Dialogues

variable {rules : GatherRules Q R β}
variable {crew next : Crew Q R α β} {trace signals : List (Signal Q R)}

theorem forall₂_set {γ δ : Type} {before after : γ → δ → Prop}
    {first : List γ} {second : List δ} {index : ℕ} {old new : δ}
    (h : List.Forall₂ before first second)
    (hold : second[index]? = some old)
    (hkeep : ∀ left right, before left right → after left right)
    (hnew : ∀ left, before left old → after left new) :
    List.Forall₂ after first (second.set index new) := by
  induction h generalizing index with
  | nil => cases hold
  | cons hhead htail ih =>
    cases index with
    | zero =>
      have hsame := Option.some.inj hold
      rw [hsame] at hhead
      exact .cons (hnew _ hhead) (htail.imp hkeep)
    | succ index => exact .cons (hkeep _ _ hhead) (ih hold)

theorem forall₂_spawned {follows : Coroutine Q R β → Child Q R β → Prop}
    (hstart : ∀ code, follows code (Child.start code))
    (code : Coroutine Q R α) :
    List.Forall₂ follows (rules.gathered code) (rules.spawned code) := by
  unfold GatherRules.gathered GatherRules.spawned
  cases code with
  | done result => exact .nil
  | await query resume =>
    dsimp only
    induction (rules.children query).getD [] with
    | nil => exact .nil
    | cons first rest ih => exact .cons (hstart first) ih

theorem Spoken.refl (trace : List (Signal Q R)) (code : Coroutine Q R α) :
    Spoken trace code code := by
  refine ⟨[], .refl, ?_⟩
  intro query reply hmem
  cases hmem

theorem reported_results {codes : List (Coroutine Q R β)} {children : List (Child Q R β)}
    (h : List.Forall₂ (fun code (child : Child Q R β) =>
      Spoken trace code child.code) codes children) :
    List.Forall₂ (Reported trace) codes (children.map fun child => child.code.result?) := by
  rw [forall₂_map_right_iff]
  refine List.Forall₂.imp ?_ h
  intro code child hspoken value hvalue
  have hdone : child.code = .done value := by
    cases hcode : child.code with
    | await query resume =>
      rw [hcode] at hvalue
      cases hvalue
    | done result =>
      rw [hcode] at hvalue
      rw [Option.some.inj hvalue]
  rw [← hdone]
  exact hspoken

variable {code : Coroutine Q R α}

theorem Crew.Played.resumeWith (h : crew.Played rules code trace) {query : Q}
    {resume : R → Coroutine Q R α} (hmain : crew.main = .await query resume)
    {reply : R} (hcollected : rules.Collected trace query reply) :
    (rules.resumeWith crew query resume reply).1.Played rules code
      (trace ++ (rules.resumeWith crew query resume reply).2) := by
  constructor
  · obtain ⟨dialogue, hleads, hanswered⟩ := h.main
    rw [hmain] at hleads
    refine ⟨dialogue ++ [(query, reply)], .step reply hleads, ?_⟩
    intro other answer hmem
    rcases mem_append.mp hmem with hold | hnew
    · obtain ⟨hshown, hold⟩ := hanswered other answer hold
      exact ⟨mem_append_left _ hshown, hold.mono _⟩
    · cases mem_singleton.mp hnew
      exact ⟨mem_append_right trace mem_cons_self, hcollected.mono _⟩
  · exact forall₂_spawned (fun code => Spoken.refl _ code) (resume reply)

theorem Crew.Played.collected (h : crew.Played rules code trace) {query : Q}
    {resume : R → Coroutine Q R α} (hmain : crew.main = .await query resume)
    {choice : ℕ} {reply : R}
    (hcollect : rules.collect query crew.interrupted choice
      (crew.gathering.map fun child => child.code.result?) = some reply)
    {answer : R} (hanswer : answer = reply ∨ answer = rules.interrupt query) :
    rules.Collected trace query answer := by
  intro codes hcodes
  have hreported := reported_results h.gathering
  unfold GatherRules.gathered at hreported
  rw [hmain] at hreported
  dsimp only at hreported
  rw [hcodes] at hreported
  exact ⟨_, choice, _, reply, hreported, hcollect, hanswer⟩

theorem Crew.Played.step {code : Coroutine Q R α}
    (h : crew.Played rules code trace) {pick : CrewPick}
    (hstep : rules.step crew pick = some (next, signals)) :
    next.Played rules code (trace ++ signals) := by
  have hkeep : ∃ dialogue, code.Leads dialogue crew.main ∧
      ∀ query reply, (query, reply) ∈ dialogue → .answered query reply ∈ trace ++ signals ∧
          rules.Collected (trace ++ signals) query reply := by
    obtain ⟨dialogue, hleads, hanswered⟩ := h.main
    refine ⟨dialogue, hleads, ?_⟩
    intro query reply hmem
    obtain ⟨hshown, hcollected⟩ := hanswered query reply hmem
    exact ⟨mem_append_left _ hshown, hcollected.mono _⟩
  cases GatherRules.transition_of_step hstep with
  | replied pick query resume reply hmain hplain hreply =>
    apply h.resumeWith hmain
    intro codes hcodes
    rw [hplain] at hcodes
    cases hcodes
  | gathered choice query resume codes reply hmain hchildren hcollect =>
    exact h.resumeWith hmain (h.collected hmain hcollect (Or.inl rfl))
  | child index child query resume reply hchild hcode hreply =>
    refine ⟨hkeep, ?_⟩
    refine forall₂_set h.gathering hchild
      (fun _ _ hspoken => hspoken.mono _) ?_
    intro code hspoken
    rw [hcode] at hspoken
    exact hspoken.resume reply _
  | orphan index child query resume reply hchild hcode hreply =>
    exact ⟨hkeep, h.gathering.imp fun _ _ hspoken => hspoken.mono _⟩
  | abandoned query resume codes reply hmain hchildren hcollect =>
    exact h.resumeWith hmain (h.collected hmain hcollect (Or.inr rfl))
  | interrupted query resume codes hmain hchildren hcollect =>
    refine ⟨hkeep, ?_⟩
    rw [append_nil, forall₂_map_right_iff]
    exact h.gathering

theorem played_execute (rules : GatherRules Q R β) (code : Coroutine Q R α)
    (schedule : List CrewPick) :
    (rules.execute code schedule).state.Played rules code
      (rules.execute code schedule).trace := by
  refine Machine.runFrom_invariant
    (fun crew trace => Crew.Played rules code crew trace)
    (fun _ _ _ _ _ hplayed hstep => hplayed.step hstep) ?_ schedule
  refine ⟨⟨[], .refl, ?_⟩, ?_⟩
  · intro query reply hmem
    cases hmem
  · exact forall₂_spawned (fun code => Spoken.refl _ code) code

theorem ensures_execute {post : List (Q × R) → α → Prop}
    (hensures : code.Ensures post) {schedule : List CrewPick} {result : α}
    (hdone : (rules.execute code schedule).state.main = .done result) :
    ∃ dialogue, post dialogue result ∧ ∀ query reply, (query, reply) ∈ dialogue →
        .answered query reply ∈ (rules.execute code schedule).trace ∧
          rules.Collected (rules.execute code schedule).trace query reply := by
  obtain ⟨dialogue, hleads, hanswered⟩ :=
    (played_execute rules code schedule).main
  rw [hdone] at hleads
  exact ⟨dialogue, hensures.result hleads, hanswered⟩

theorem answered_head {code : Coroutine Q R α} {query : Q}
    (hhead : code.head? = some query) {schedule : List CrewPick}
    (hdone : (rules.execute code schedule).state.main.isDone = true) :
    ∃ reply, .answered query reply ∈ (rules.execute code schedule).trace ∧
      rules.Collected (rules.execute code schedule).trace query reply := by
  obtain ⟨dialogue, hleads, hanswered⟩ :=
    (played_execute rules code schedule).main
  cases hmain : (rules.execute code schedule).state.main with
  | await other resume =>
    rw [hmain] at hdone
    cases hdone
  | done result =>
    rw [hmain] at hleads
    obtain ⟨reply, hmem⟩ := hleads.of_head hhead
    exact ⟨reply, hanswered query reply hmem⟩

end Dialogues

end PyFly.Library
