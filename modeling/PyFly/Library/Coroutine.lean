import Mathlib.Data.List.Basic
import Mathlib.Tactic.Common
import PyFly.Library.Rounds

/-!
# Coroutines

A coroutine either has finished or is suspended at a query and goes on with
the reply.  Exceptions travel in its result.  Against an environment which
answers by a function the course of a coroutine is determined: the queries it
makes and the result it ends with are computed by recursion, and both follow
the program text of sequencing and of exception handling.
-/

namespace PyFly.Library

open List

inductive Coroutine (Q R α : Type)
  | done (result : α)
  | await (query : Q) (resume : R → Coroutine Q R α)

namespace Coroutine

variable {Q R α β : Type}

def bind : Coroutine Q R α → (α → Coroutine Q R β) → Coroutine Q R β
  | .done result, next => next result
  | .await query resume, next =>
    .await query fun reply => (resume reply).bind next

theorem bind_done (code : Coroutine Q R α) : code.bind .done = code := by
  induction code with
  | done result => rfl
  | await query resume ih =>
    rw [bind]
    congr 1
    funext reply
    exact ih reply

theorem bind_assoc {γ : Type} (code : Coroutine Q R α)
    (first : α → Coroutine Q R β) (second : β → Coroutine Q R γ) :
    (code.bind first).bind second = code.bind fun result => (first result).bind second := by
  induction code with
  | done result => rfl
  | await query resume ih =>
    rw [bind, bind, bind]
    congr 1
    funext reply
    exact ih reply

def isDone : Coroutine Q R α → Bool
  | .done _ => true
  | .await _ _ => false

def result? : Coroutine Q R α → Option α
  | .done result => some result
  | .await _ _ => none

def head? : Coroutine Q R α → Option Q
  | .done _ => none
  | .await query _ => some query

section Determined

variable (answer : Q → R)

def queries : Coroutine Q R α → List Q
  | .done _ => []
  | .await query resume => query :: (resume (answer query)).queries

def outcome : Coroutine Q R α → α
  | .done result => result
  | .await query resume => (resume (answer query)).outcome

theorem queries_bind (code : Coroutine Q R α) (next : α → Coroutine Q R β) :
    (code.bind next).queries answer =
      code.queries answer ++ (next (code.outcome answer)).queries answer := by
  induction code with
  | done result => rfl
  | await query resume ih =>
    rw [bind, queries, queries, outcome, ih]
    rfl

theorem outcome_bind (code : Coroutine Q R α) (next : α → Coroutine Q R β) :
    (code.bind next).outcome answer = (next (code.outcome answer)).outcome answer := by
  induction code with
  | done result => rfl
  | await query resume ih =>
    rw [bind, outcome, outcome, ih]

theorem outcome_of_result? {code : Coroutine Q R α} {result : α}
    (h : code.result? = some result) : code.outcome answer = result := by
  cases code with
  | done value => exact Option.some.inj h
  | await query resume => cases h

end Determined

/-! ## Properties of every course of a coroutine -/

def Always (property : Q → Prop) : Coroutine Q R α → Prop
  | .done _ => True
  | .await query resume =>
    property query ∧ ∀ reply, (resume reply).Always property

variable {property : Q → Prop} {code : Coroutine Q R α} {next : α → Coroutine Q R β}

theorem Always.bind (hcode : code.Always property)
    (hnext : ∀ result, (next result).Always property) :
    (code.bind next).Always property := by
  induction code with
  | done result => exact hnext result
  | await query resume ih =>
    exact ⟨hcode.1, fun reply => ih reply (hcode.2 reply)⟩

theorem Always.imp {property' : Q → Prop} (himp : ∀ query, property query → property' query)
    (hcode : code.Always property) : code.Always property' := by
  induction code with
  | done result => trivial
  | await query resume ih =>
    exact ⟨himp query hcode.1, fun reply => ih reply (hcode.2 reply)⟩

theorem Always.mem_queries (hcode : code.Always property) (answer : Q → R) :
    ∀ query ∈ code.queries answer, property query := by
  induction code with
  | done result =>
    intro query hmem
    cases hmem
  | await query resume ih =>
    intro other hmem
    rcases mem_cons.mp hmem with hhead | htail
    · rw [hhead]
      exact hcode.1
    · exact ih (answer query) (hcode.2 _) other htail

inductive Leads (code : Coroutine Q R α) :
    List (Q × R) → Coroutine Q R α → Prop
  | refl : Leads code [] code
  | step {dialogue : List (Q × R)} {query : Q} {resume : R → Coroutine Q R α} (reply : R)
      (hpath : Leads code dialogue (.await query resume)) :
      Leads code (dialogue ++ [(query, reply)]) (resume reply)

theorem Leads.cons {query : Q} {resume : R → Coroutine Q R α} {reply : R}
    {dialogue : List (Q × R)} {code : Coroutine Q R α}
    (h : Leads (resume reply) dialogue code) :
    Leads (.await query resume) ((query, reply) :: dialogue) code := by
  induction h with
  | refl => exact Leads.step reply .refl
  | step reply _ ih => exact Leads.step reply ih

variable {dialogue : List (Q × R)}

theorem Leads.uncons {query : Q} {resume : R → Coroutine Q R α} {reached : Coroutine Q R α}
    (h : Leads (.await query resume) dialogue reached) :
    (dialogue = [] ∧ reached = .await query resume) ∨
      ∃ reply rest, dialogue = (query, reply) :: rest ∧ Leads (resume reply) rest reached := by
  induction h with
  | refl => exact Or.inl ⟨rfl, rfl⟩
  | step reply _ ih =>
    rcases ih with ⟨hdialogue, hreached⟩ | ⟨first, rest, hdialogue, hrest⟩
    · cases hreached
      right
      refine ⟨reply, [], ?_, .refl⟩
      rw [hdialogue]
      rfl
    · right
      refine ⟨first, rest ++ [(_, reply)], ?_, .step reply hrest⟩
      rw [hdialogue]
      rfl

theorem Leads.of_head {query : Q} (hhead : code.head? = some query) {result : α}
    (h : code.Leads dialogue (.done result)) :
    ∃ reply, (query, reply) ∈ dialogue := by
  cases code with
  | done other => cases hhead
  | await first resume =>
    have hsame : first = query := Option.some.inj hhead
    rcases h.uncons with ⟨_, hreached⟩ | ⟨reply, rest, hdialogue, _⟩
    · cases hreached
    · refine ⟨reply, ?_⟩
      rw [hdialogue, hsame]
      exact mem_cons_self

def Ensures (post : List (Q × R) → α → Prop) : Coroutine Q R α → Prop
  | .done result => post [] result
  | .await query resume => ∀ reply, (resume reply).Ensures fun dialogue =>
    post ((query, reply) :: dialogue)

variable {post : List (Q × R) → α → Prop}

theorem Ensures.imp {post' : List (Q × R) → α → Prop}
    (himp : ∀ dialogue result, post dialogue result → post' dialogue result)
    (hcode : code.Ensures post) : code.Ensures post' := by
  induction code generalizing post post' with
  | done result => exact himp [] result hcode
  | await query resume ih =>
    intro reply
    exact ih reply (fun dialogue result => himp _ result) (hcode reply)

theorem ensures_of_forall (hpost : ∀ dialogue result, post dialogue result)
    (code : Coroutine Q R α) : code.Ensures post := by
  induction code generalizing post with
  | done result => exact hpost [] result
  | await query resume ih =>
    intro reply
    exact ih reply fun dialogue => hpost _

theorem Ensures.and {post' : List (Q × R) → α → Prop} (hcode : code.Ensures post)
    (hcode' : code.Ensures post') :
    code.Ensures fun dialogue result =>
      post dialogue result ∧ post' dialogue result := by
  induction code generalizing post post' with
  | done result => exact ⟨hcode, hcode'⟩
  | await query resume ih => exact fun reply => ih reply (hcode reply) (hcode' reply)

theorem ensures_leads (code : Coroutine Q R α) :
    code.Ensures fun dialogue result => Leads code dialogue (.done result) := by
  induction code with
  | done result => exact .refl
  | await query resume ih =>
    exact fun reply => (ih reply).imp fun _ _ hpath => hpath.cons

theorem Ensures.bind {post' : List (Q × R) → β → Prop} (hcode : code.Ensures post)
    (hnext : ∀ dialogue result, post dialogue result →
      (next result).Ensures fun more => post' (dialogue ++ more)) :
    (code.bind next).Ensures post' := by
  induction code generalizing post post' with
  | done result => exact hnext [] result hcode
  | await query resume ih =>
    intro reply
    exact ih reply (hcode reply)
      fun dialogue result => hnext ((query, reply) :: dialogue) result

theorem Ensures.of_leads {reached : Coroutine Q R α} (hcode : code.Ensures post)
    (hpath : Leads code dialogue reached) :
    reached.Ensures fun more => post (dialogue ++ more) := by
  induction hpath with
  | refl => exact hcode
  | step reply _ ih =>
    have hnext := ih reply
    refine hnext.imp fun more result hpost => ?_
    rw [append_assoc]
    exact hpost

theorem Ensures.result {result : α} (hcode : code.Ensures post)
    (hpath : Leads code dialogue (.done result)) : post dialogue result := by
  have hdone := hcode.of_leads hpath
  have hpost : post (dialogue ++ []) result := hdone
  rwa [append_nil] at hpost

def Descends (rank : Q → Option ℕ) : ℕ → Coroutine Q R α → Prop
  | _, .done _ => True
  | bound, .await query resume =>
    (rank query).getD bound ≤ bound ∧
      ∀ reply, (resume reply).Descends rank ((rank query).getD bound)

theorem Descends.mono {rank : Q → Option ℕ} {bound bound' : ℕ}
    (hle : bound ≤ bound') (hcode : code.Descends rank bound) :
    code.Descends rank bound' := by
  induction code generalizing bound bound' with
  | done result => trivial
  | await query resume ih =>
    cases hrank : rank query with
    | none =>
      refine ⟨by simp [hrank], fun reply => ?_⟩
      have hreply := hcode.2 reply
      rw [hrank] at hreply ⊢
      exact ih reply hle hreply
    | some level =>
      have hlevel := hcode.1
      rw [hrank] at hlevel
      refine ⟨?_, fun reply => ?_⟩
      · rw [hrank]
        exact Nat.le_trans hlevel hle
      · have hreply := hcode.2 reply
        rw [hrank] at hreply ⊢
        exact hreply

theorem Descends.bind {rank : Q → Option ℕ} {level bound : ℕ} (hle : level ≤ bound)
    (hcode : code.Always fun query => (rank query).getD level = level)
    (hnext : ∀ result, (next result).Descends rank level) :
    (code.bind next).Descends rank bound := by
  induction code generalizing bound with
  | done result => exact (hnext result).mono hle
  | await query resume ih =>
    cases hrank : rank query with
    | none =>
      refine ⟨by simp [hrank], fun reply => ?_⟩
      rw [hrank]
      exact ih reply hle (hcode.2 reply)
    | some found =>
      have hsame : found = level := by
        simpa [hrank] using hcode.1
      refine ⟨?_, fun reply => ?_⟩
      · rw [hrank, hsame]
        exact hle
      · rw [hrank, hsame]
        exact ih reply (Nat.le_refl _) (hcode.2 reply)

end Coroutine

/-! ## Coroutines which may raise -/

def Async (Q R F α : Type) := Coroutine Q R (Except F α)

namespace Async

variable {Q R F α β : Type}

def throw (fault : F) : Async Q R F α := Coroutine.done (.error fault)

def proceed (next : α → Async Q R F β) : Except F α → Coroutine Q R (Except F β)
  | .ok value => next value
  | .error fault => Coroutine.done (.error fault)

def handle (handler : F → Async Q R F α) : Except F α → Coroutine Q R (Except F α)
  | .ok value => Coroutine.done (.ok value)
  | .error fault => handler fault

instance : Monad (Async Q R F) where
  pure value := Coroutine.done (.ok value)
  bind code next := Coroutine.bind code (proceed next)

def ask (query : Q) : Async Q (Except F R) F R := Coroutine.await query .done

def forEach {γ : Type} (items : List γ) (body : γ → Async Q R F Unit) : Async Q R F Unit :=
  match items with
  | [] => pure ()
  | item :: rest => do
      body item
      forEach rest body

theorem bind_pure_unit (code : Async Q R F Unit) : (code >>= fun _ => pure ()) = code := by
  have hproceed : proceed (fun _ => (pure () : Async Q R F Unit)) = Coroutine.done := by
    funext result
    cases result with
    | ok value => rfl
    | error fault => rfl
  show Coroutine.bind code (proceed fun _ => pure ()) = code
  rw [hproceed]
  exact Coroutine.bind_done code

/-- `try: code` with an `except` clause. -/
def catching (code : Async Q R F α) (handler : F → Async Q R F α) : Async Q R F α :=
  Coroutine.bind code (handle handler)

section Determined

variable (answer : Q → R)

def queries (code : Async Q R F α) : List Q := Coroutine.queries answer code

def outcome (code : Async Q R F α) : Except F α :=
  Coroutine.outcome answer code

@[simp] theorem queries_pure (value : α) :
    (pure value : Async Q R F α).queries answer = [] := rfl

@[simp] theorem outcome_pure (value : α) :
    (pure value : Async Q R F α).outcome answer = .ok value := rfl

@[simp] theorem queries_throw (fault : F) :
    (throw fault : Async Q R F α).queries answer = [] := rfl

@[simp] theorem outcome_throw (fault : F) :
    (throw fault : Async Q R F α).outcome answer = .error fault := rfl

@[simp] theorem queries_ask (reply : Q → Except F R) (query : Q) :
    (ask query : Async Q (Except F R) F R).queries reply = [query] := rfl

@[simp] theorem outcome_ask (reply : Q → Except F R) (query : Q) :
    (ask query : Async Q (Except F R) F R).outcome reply = reply query := rfl

theorem queries_bind (code : Async Q R F α) (next : α → Async Q R F β) :
    (code >>= next).queries answer = code.queries answer ++
      (proceed next (code.outcome answer)).queries answer :=
  Coroutine.queries_bind answer code (proceed next)

theorem outcome_bind (code : Async Q R F α) (next : α → Async Q R F β) :
    (code >>= next).outcome answer = (proceed next (code.outcome answer)).outcome answer :=
  Coroutine.outcome_bind answer code (proceed next)

theorem queries_catching (code : Async Q R F α) (handler : F → Async Q R F α) :
    (code.catching handler).queries answer = code.queries answer ++
      (handle handler (code.outcome answer)).queries answer :=
  Coroutine.queries_bind answer code (handle handler)

theorem outcome_catching (code : Async Q R F α) (handler : F → Async Q R F α) :
    (code.catching handler).outcome answer =
      (handle handler (code.outcome answer)).outcome answer :=
  Coroutine.outcome_bind answer code (handle handler)

variable {code : Async Q R F α} {value : α}

theorem queries_bind_of_ok (hok : code.outcome answer = .ok value) (next : α → Async Q R F β) :
    (code >>= next).queries answer = code.queries answer ++ (next value).queries answer := by
  rw [queries_bind, hok]
  rfl

variable {fault : F}

theorem queries_bind_of_error (herror : code.outcome answer = .error fault)
    (next : α → Async Q R F β) :
    (code >>= next).queries answer = code.queries answer := by
  rw [queries_bind, herror]
  exact append_nil _

theorem outcome_bind_of_ok (hok : code.outcome answer = .ok value) (next : α → Async Q R F β) :
    (code >>= next).outcome answer = (next value).outcome answer := by
  rw [outcome_bind, hok]
  rfl

theorem outcome_bind_of_error (herror : code.outcome answer = .error fault)
    (next : α → Async Q R F β) :
    (code >>= next).outcome answer = .error fault := by
  rw [outcome_bind, herror]
  rfl

theorem bind_eq_ok {next : α → Async Q R F β} {result : β}
    (h : (code >>= next).outcome answer = .ok result) :
    ∃ value, code.outcome answer = .ok value ∧ (next value).outcome answer = .ok result ∧
      (code >>= next).queries answer = code.queries answer ++ (next value).queries answer := by
  cases hcode : code.outcome answer with
  | ok value =>
    rw [outcome_bind_of_ok answer hcode] at h
    exact ⟨value, rfl, h, queries_bind_of_ok answer hcode next⟩
  | error fault =>
    rw [outcome_bind_of_error answer hcode] at h
    cases h

theorem queries_catching_of_ok (hok : code.outcome answer = .ok value)
    (handler : F → Async Q R F α) :
    (code.catching handler).queries answer = code.queries answer := by
  rw [queries_catching, hok]
  exact append_nil _

theorem queries_catching_of_error (herror : code.outcome answer = .error fault)
    (handler : F → Async Q R F α) :
    (code.catching handler).queries answer =
      code.queries answer ++ (handler fault).queries answer := by
  rw [queries_catching, herror]
  rfl

theorem outcome_catching_of_ok (hok : code.outcome answer = .ok value)
    (handler : F → Async Q R F α) :
    (code.catching handler).outcome answer = .ok value := by
  rw [outcome_catching, hok]
  rfl

theorem outcome_catching_of_error (herror : code.outcome answer = .error fault)
    (handler : F → Async Q R F α) :
    (code.catching handler).outcome answer = (handler fault).outcome answer := by
  rw [outcome_catching, herror]
  rfl

end Determined

def Always (property : Q → Prop) (code : Async Q R F α) : Prop :=
  Coroutine.Always property code

def Descends (rank : Q → Option ℕ) (bound : ℕ) (code : Async Q R F α) :
    Prop :=
  Coroutine.Descends rank bound code

variable {code : Async Q R F α} {next : α → Async Q R F β}

theorem Always.bind {property : Q → Prop} (hcode : code.Always property)
    (hnext : ∀ value, (next value).Always property) :
    (code >>= next).Always property := by
  apply Coroutine.Always.bind hcode
  intro result
  cases result with
  | ok value => exact hnext value
  | error fault => trivial

theorem Always.catching {property : Q → Prop} {handler : F → Async Q R F α}
    (hcode : code.Always property)
    (hhandler : ∀ fault, (handler fault).Always property) :
    (code.catching handler).Always property := by
  apply Coroutine.Always.bind hcode
  intro result
  cases result with
  | ok value => trivial
  | error fault => exact hhandler fault

def Ensures (post : List (Q × R) → Except F α → Prop) (code : Async Q R F α) : Prop :=
  Coroutine.Ensures post code

/-- A sequence ends with the fault of its first part or with its second
part. -/
theorem Ensures.bind {post : List (Q × R) → Except F α → Prop}
    {post' : List (Q × R) → Except F β → Prop} (hcode : code.Ensures post)
    (hfault : ∀ dialogue fault, post dialogue (.error fault) → post' dialogue (.error fault))
    (hnext : ∀ dialogue value, post dialogue (.ok value) →
      (next value).Ensures fun more => post' (dialogue ++ more)) :
    (code >>= next).Ensures post' := by
  apply Coroutine.Ensures.bind hcode
  intro dialogue result hpost
  cases result with
  | ok value => exact hnext dialogue value hpost
  | error fault =>
    show post' (dialogue ++ []) (.error fault)
    rw [append_nil]
    exact hfault dialogue fault hpost

theorem Ensures.catching {post post' : List (Q × R) → Except F α → Prop}
    {handler : F → Async Q R F α} (hcode : code.Ensures post)
    (hvalue : ∀ dialogue value, post dialogue (.ok value) → post' dialogue (.ok value))
    (hhandler : ∀ dialogue fault, post dialogue (.error fault) →
      (handler fault).Ensures fun more => post' (dialogue ++ more)) :
    (code.catching handler).Ensures post' := by
  apply Coroutine.Ensures.bind hcode
  intro dialogue result hpost
  cases result with
  | error fault => exact hhandler dialogue fault hpost
  | ok value =>
    show post' (dialogue ++ []) (.ok value)
    rw [append_nil]
    exact hvalue dialogue value hpost

theorem Descends.bind {rank : Q → Option ℕ} {level bound : ℕ} (hle : level ≤ bound)
    (hcode : code.Always fun query => (rank query).getD level = level)
    (hnext : ∀ value, (next value).Descends rank level) :
    (code >>= next).Descends rank bound := by
  apply Coroutine.Descends.bind hle hcode
  intro result
  cases result with
  | ok value => exact hnext value
  | error fault => trivial

section Loops

variable {γ : Type} {body : γ → Async Q R F Unit}

theorem Always.forEach {property : Q → Prop} (items : List γ)
    (hbody : ∀ item ∈ items, (body item).Always property) :
    (forEach items body).Always property := by
  induction items with
  | nil => trivial
  | cons item rest ih =>
    apply Always.bind (hbody item mem_cons_self)
    intro _
    exact ih fun other hmem => hbody other (mem_cons_of_mem _ hmem)

/-- What each round of a loop leaves behind is there when the loop ends
normally. -/
theorem Ensures.forEach {found : γ → List (Q × R) → Prop}
    (hmono : ∀ item before dialogue after, found item dialogue →
      found item (before ++ dialogue ++ after))
    (items : List γ)
    (hbody : ∀ item ∈ items, (body item).Ensures fun dialogue result =>
      result = .ok () → found item dialogue) :
    (forEach items body).Ensures fun dialogue result =>
      result = .ok () → ∀ item ∈ items, found item dialogue := by
  induction items with
  | nil =>
    intro _ item hmem
    cases hmem
  | cons first rest ih =>
    apply Ensures.bind (hbody first mem_cons_self)
    · intro dialogue fault _ hok
      cases hok
    · intro dialogue value hfirst
      have hrest := ih fun item hmem =>
        hbody item (mem_cons_of_mem _ hmem)
      refine Coroutine.Ensures.imp ?_ hrest
      intro more result hmore hok item hmem
      rcases mem_cons.mp hmem with hhead | htail
      · rw [hhead]
        exact hmono first [] dialogue more (hfirst rfl)
      · have hfound := hmono item dialogue more [] (hmore hok item htail)
        rwa [append_nil] at hfound

variable {α' : Type}

theorem bind_assoc {β' : Type} (code : Async Q R F α)
    (first : α → Async Q R F α') (second : α' → Async Q R F β') :
    (code >>= first) >>= second = code >>= fun value =>
      first value >>= second := by
  have hassoc := Coroutine.bind_assoc code (proceed first) (proceed second)
  have hproceed : (fun result => Coroutine.bind (proceed first result)
      (proceed second)) = proceed fun value => first value >>= second := by
    funext result
    cases result with
    | ok value => rfl
    | error fault => rfl
  rw [hproceed] at hassoc
  exact hassoc

theorem forEach_append (first second : List γ) : forEach (first ++ second) body =
      forEach first body >>= fun _ => forEach second body := by
  induction first with
  | nil => rfl
  | cons item rest ih =>
    rw [cons_append, forEach, forEach, ih, bind_assoc]

theorem head?_bind {β' : Type} {code : Async Q R F α'} {query : Q}
    (hhead : Coroutine.head? code = some query)
    (next : α' → Async Q R F β') :
    Coroutine.head? (code >>= next : Async Q R F β') = some query := by
  cases code with
  | done result => cases hhead
  | await first resume => exact hhead

theorem head?_catching {code : Async Q R F α'} {query : Q}
    (hhead : Coroutine.head? code = some query) (handler : F → Async Q R F α') :
    Coroutine.head? (catching code handler) = some query := by
  cases code with
  | done result => cases hhead
  | await first resume => exact hhead

/-- A loop whose rounds do nothing or begin with a query does nothing or
begins with the query of one of them. -/
theorem forEach_opens {opens : γ → Q → Prop} {items : List γ}
    (hround : ∀ item ∈ items, body item = pure () ∨
      ∃ query, Coroutine.head? (body item) = some query ∧ opens item query) :
    (forEach items body = pure () ∧ ∀ item ∈ items, body item = pure ()) ∨
      ∃ item ∈ items, ∃ query, Coroutine.head? (forEach items body) = some query ∧
          opens item query := by
  induction items with
  | nil => exact Or.inl ⟨rfl, by simp⟩
  | cons item rest ih =>
    rcases hround item mem_cons_self with hpure | ⟨query, hhead, hopens⟩
    · have hloop : forEach (item :: rest) body = forEach rest body := by
        rw [forEach, hpure]
        rfl
      rw [hloop]
      rcases ih fun other hmem =>
          hround other (mem_cons_of_mem item hmem) with
        ⟨hrest, hall⟩ | ⟨other, hother, hfound⟩
      · refine Or.inl ⟨hrest, ?_⟩
        intro other hmem
        rcases mem_cons.mp hmem with hsame | hlater
        · rw [hsame]
          exact hpure
        · exact hall other hlater
      · exact Or.inr ⟨other, mem_cons_of_mem item hother, hfound⟩
    · exact Or.inr ⟨item, mem_cons_self, query, head?_bind hhead _, hopens⟩

section Determined

variable (answer : Q → R)

def begun (body : γ → Async Q R F Unit) : List γ → List γ
  | [] => []
  | item :: rest =>
    match (body item).outcome answer with
    | .ok _ => item :: begun body rest
    | .error _ => [item]

variable {item : γ}

theorem begun_of_ok {value : Unit}
    (hok : (body item).outcome answer = .ok value) (rest : List γ) :
    begun answer body (item :: rest) = item :: begun answer body rest := by
  rw [begun, hok]

theorem begun_of_error {fault : F}
    (herror : (body item).outcome answer = .error fault) (rest : List γ) :
    begun answer body (item :: rest) = [item] := by
  rw [begun, herror]

theorem queries_forEach (items : List γ) : (forEach items body).queries answer =
      (begun answer body items).flatMap fun item =>
        (body item).queries answer := by
  induction items with
  | nil => rfl
  | cons item rest ih =>
    rw [forEach]
    cases hround : (body item).outcome answer with
    | ok value =>
      rw [queries_bind_of_ok answer hround, begun_of_ok answer hround, ih, flatMap_cons]
    | error fault =>
      rw [queries_bind_of_error answer hround, begun_of_error answer hround]
      simp

variable {items : List γ}

theorem outcome_forEach_eq_ok : (forEach items body).outcome answer = .ok () ↔
      ∀ item ∈ items, (body item).outcome answer = .ok () := by
  induction items with
  | nil =>
    constructor
    · intro _ item hmem
      cases hmem
    · intro _
      rfl
  | cons first rest ih =>
    rw [forEach]
    cases hround : (body first).outcome answer with
    | ok value =>
      rw [outcome_bind_of_ok answer hround, ih]
      simp [hround]
    | error fault =>
      rw [outcome_bind_of_error answer hround]
      simp [hround]

theorem mem_begun_iff : item ∈ begun answer body items ↔
      ∃ before after, items = before ++ item :: after ∧
        ∀ other ∈ before, (body other).outcome answer = .ok () := by
  induction items with
  | nil => simp [begun]
  | cons first rest ih =>
    cases hround : (body first).outcome answer with
    | ok value =>
      rw [begun_of_ok answer hround, mem_cons, ih]
      constructor
      · intro h
        rcases h with hhead | ⟨before, after, hrest, hall⟩
        · refine ⟨[], rest, ?_, ?_⟩
          · rw [hhead]
            rfl
          · intro other hmem
            cases hmem
        · refine ⟨first :: before, after, ?_, ?_⟩
          · rw [hrest]
            rfl
          · intro other hmem
            rcases mem_cons.mp hmem with hhead | htail
            · rw [hhead]
              exact hround
            · exact hall other htail
      · intro h
        obtain ⟨before, after, hitems, hall⟩ := h
        cases before with
        | nil =>
          left
          exact (List.cons.inj hitems).1.symm
        | cons head before =>
          right
          refine ⟨before, after, (List.cons.inj hitems).2, ?_⟩
          intro other hmem
          exact hall other (mem_cons_of_mem _ hmem)
    | error fault =>
      rw [begun_of_error answer hround, mem_singleton]
      constructor
      · intro hhead
        refine ⟨[], rest, ?_, ?_⟩
        · rw [hhead]
          rfl
        · intro other hmem
          cases hmem
      · intro h
        obtain ⟨before, after, hitems, hall⟩ := h
        cases before with
        | nil => exact (List.cons.inj hitems).1.symm
        | cons head before =>
          have hok := hall head mem_cons_self
          rw [← (List.cons.inj hitems).1, hround] at hok
          cases hok

theorem mem_begun_reverse_iff : item ∈ begun answer body items.reverse ↔
      ∃ earlier later, items = earlier ++ item :: later ∧
        ∀ other ∈ later, (body other).outcome answer = .ok () := by
  rw [mem_begun_iff]
  constructor
  · rintro ⟨before, after, hitems, hall⟩
    refine ⟨after.reverse, before.reverse, ?_, ?_⟩
    · rw [← reverse_reverse items, hitems]
      simp
    · intro other hmem
      exact hall other (mem_reverse.mp hmem)
  · rintro ⟨earlier, later, rfl, hall⟩
    refine ⟨later.reverse, earlier.reverse, ?_, ?_⟩
    · simp
    · intro other hmem
      exact hall other (mem_reverse.mp hmem)

theorem begun_prefix (items : List γ) : begun answer body items <+: items := by
  induction items with
  | nil => exact prefix_refl []
  | cons item rest ih =>
    cases hround : (body item).outcome answer with
    | ok value =>
      rw [begun_of_ok answer hround]
      exact (prefix_cons_inj item).mpr ih
    | error fault =>
      rw [begun_of_error answer hround]
      exact prefix_append [item] rest

theorem begun_eq_takeThrough {stop : γ → Bool}
    (hstop : ∀ item, (body item).outcome answer = .ok () ↔ stop item = false) (items : List γ) :
    begun answer body items = takeThrough stop items := by
  induction items with
  | nil => rfl
  | cons item rest ih =>
    cases hround : (body item).outcome answer with
    | ok value =>
      rw [begun_of_ok answer hround, ih, takeThrough_cons_of_go ((hstop item).mp hround)]
    | error fault =>
      have hstopped : stop item = true := by
        by_contra h
        have hok := (hstop item).mpr (by simpa using h)
        rw [hround] at hok
        cases hok
      rw [begun_of_error answer hround, takeThrough_cons_of_stop hstopped]

theorem begun_of_all_ok (hok : ∀ item ∈ items, (body item).outcome answer = .ok ()) :
    begun answer body items = items := by
  induction items with
  | nil => rfl
  | cons item rest ih =>
    rw [begun_of_ok answer (hok item mem_cons_self),
      ih fun other hmem => hok other (mem_cons_of_mem _ hmem)]

end Determined

theorem Descends.forEach {rank : Q → Option ℕ} {level : γ → ℕ} {items : List γ} {bound : ℕ}
    (hbound : ∀ item ∈ items, level item ≤ bound)
    (hsorted : items.Pairwise fun first second =>
      level second ≤ level first)
    (hbody : ∀ item ∈ items, (body item).Always fun query =>
      (rank query).getD (level item) = level item) :
    (forEach items body).Descends rank bound := by
  induction items generalizing bound with
  | nil => trivial
  | cons first rest ih =>
    have hpairs := pairwise_cons.mp hsorted
    apply Descends.bind (hbound first mem_cons_self) (hbody first mem_cons_self)
    intro _
    exact ih hpairs.1 hpairs.2 fun item hmem =>
      hbody item (mem_cons_of_mem _ hmem)

end Loops

end Async

end PyFly.Library
