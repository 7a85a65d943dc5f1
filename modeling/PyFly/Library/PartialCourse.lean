import PyFly.Library.Coroutine

/-!
# Partial courses

A coroutine against an environment which answers some queries only: it comes
to its end when all the queries it makes are answered.  The environment may
keep a state; then its replies are compared with those of stateless ones.  A
coroutine relays a kind of fault when it ends with such a fault as soon as a
query is answered with it, and with no fault of that kind otherwise.
-/

namespace PyFly.Library

namespace Coroutine

variable {Q R F α β : Type}

def run? (answer : Q → Option R) : Coroutine Q R α → Option α
  | .done result => some result
  | .await query resume =>
    (answer query).bind fun reply => (resume reply).run? answer

@[simp] theorem run?_done (answer : Q → Option R) (result : α) :
    (done result : Coroutine Q R α).run? answer = some result := rfl

variable {query : Q}

theorem run?_await_of_some {answer : Q → Option R} {reply : R}
    (hreply : answer query = some reply) (resume : R → Coroutine Q R α) :
    (await query resume).run? answer = (resume reply).run? answer := by
  rw [run?, hreply]
  rfl

variable {code : Coroutine Q R α} {result : α}

theorem run?_mono {answer answer' : Q → Option R}
    (hmore : ∀ query reply, answer query = some reply →
      answer' query = some reply) (hrun : code.run? answer = some result) :
    code.run? answer' = some result := by
  induction code with
  | done value => exact hrun
  | await query resume ih =>
    rw [run?, Option.bind_eq_some_iff] at hrun
    obtain ⟨reply, hreply, hrest⟩ := hrun
    rw [run?_await_of_some (hmore query reply hreply)]
    exact ih reply hrest

def perform {σ : Type} (answer : Q → σ → Option (R × σ)) : Coroutine Q R α → σ → Option (α × σ)
  | .done result, state => some (result, state)
  | .await query resume, state =>
    (answer query state).bind fun answered =>
      (resume answered.1).perform answer answered.2

variable {σ : Type} {answer : Q → σ → Option (R × σ)} {state : σ} {final : α × σ}

theorem perform_await_eq_some {resume : R → Coroutine Q R α} :
    (await query resume).perform answer state = some final ↔
      ∃ reply next, answer query state = some (reply, next) ∧
        (resume reply).perform answer next = some final := by
  rw [perform, Option.bind_eq_some_iff]
  constructor
  · intro h
    obtain ⟨answered, hanswer, hrest⟩ := h
    exact ⟨answered.1, answered.2, hanswer, hrest⟩
  · intro h
    obtain ⟨reply, next, hanswer, hrest⟩ := h
    exact ⟨(reply, next), hanswer, hrest⟩

theorem perform_bind {next : α → Coroutine Q R β} {middle : σ}
    (hcode : code.perform answer state = some (result, middle)) :
    (code.bind next).perform answer state = (next result).perform answer middle := by
  induction code generalizing state with
  | done value =>
    cases hcode
    rfl
  | await query resume ih =>
    obtain ⟨reply, after, hreply, hrest⟩ := perform_await_eq_some.mp hcode
    rw [bind, perform, hreply]
    exact ih reply hrest

variable {invariant : σ → Prop}

theorem perform_isSome {asked : Q → Prop}
    (hanswer : ∀ query state, asked query → invariant state →
      ∃ reply next, answer query state = some (reply, next) ∧
        invariant next) (hasked : code.Always asked) (hstate : invariant state) :
    ∃ final, code.perform answer state = some final := by
  induction code generalizing state with
  | done result => exact ⟨(result, state), rfl⟩
  | await query resume ih =>
    obtain ⟨reply, next, hreply, hnext⟩ :=
      hanswer query state hasked.1 hstate
    obtain ⟨final, hfinal⟩ := ih reply (hasked.2 reply) hnext
    exact ⟨final, perform_await_eq_some.mpr ⟨reply, next, hreply, hfinal⟩⟩

theorem perform_relates (related : σ → σ → Prop) (hrefl : ∀ state, related state state)
    (htrans : ∀ first second third, related first second →
      related second third → related first third) {asked : Q → Prop}
    (hanswer : ∀ query state reply next, asked query →
      answer query state = some (reply, next) → related state next)
    (hasked : code.Always asked)
    (hfinal : code.perform answer state = some final) :
    related state final.2 := by
  induction code generalizing state with
  | done result =>
    cases hfinal
    exact hrefl state
  | await query resume ih =>
    obtain ⟨reply, next, hreply, hrest⟩ := perform_await_eq_some.mp hfinal
    exact htrans _ _ _ (hanswer query state reply next hasked.1 hreply)
      (ih reply (hasked.2 reply) hrest)

theorem perform_mono {answer' : Q → σ → Option (R × σ)} {asked : Q → Prop}
    (hmore : ∀ query state answered, asked query → answer query state = some answered →
        answer' query state = some answered) (hasked : code.Always asked)
    (hfinal : code.perform answer state = some final) :
    code.perform answer' state = some final := by
  induction code generalizing state with
  | done result => exact hfinal
  | await query resume ih =>
    obtain ⟨reply, next, hreply, hrest⟩ := perform_await_eq_some.mp hfinal
    exact perform_await_eq_some.mpr ⟨reply, next, hmore query state _ hasked.1 hreply,
        ih reply (hasked.2 reply) hrest⟩

theorem answers_mono {static : ℕ → Q → Option R}
    (hmore : ∀ depth query reply, static depth query = some reply →
      static (depth + 1) query = some reply) {depth depth' : ℕ}
    (hle : depth ≤ depth') {reply : R} (h : static depth query = some reply) :
    static depth' query = some reply := by
  induction hle with
  | refl => exact h
  | step _ ih => exact hmore _ _ _ ih

theorem perform_follows {static early : ℕ → Q → Option R}
    (hmore : ∀ depth query reply, static depth query = some reply →
      static (depth + 1) query = some reply) {asked : Q → Prop}
    {start : ℕ → Prop}
    (hanswer : ∀ query state reply next, asked query → invariant state →
      (∀ depth, start depth → early depth query ≠ none) →
      answer query state = some (reply, next) → invariant next ∧
        (∃ depth, static depth query = some reply) ∧
        ∀ depth reply', early depth query = some reply' → reply' = reply)
    (hasked : code.Always asked) (hstate : invariant state)
    (hstart : ∀ depth, start depth → code.run? (early depth) ≠ none) {final : σ}
    (hrun : code.perform answer state = some (result, final)) :
    invariant final ∧ ∃ depth, code.run? (static depth) = some result := by
  induction code generalizing state with
  | done value =>
    cases hrun
    exact ⟨hstate, 0, rfl⟩
  | await query resume ih =>
    obtain ⟨reply, next, hreply, hrest⟩ := perform_await_eq_some.mp hrun
    have hearly : ∀ depth, start depth → early depth query ≠ none := by
      intro depth hdepth hnone
      apply hstart depth hdepth
      rw [run?, hnone]
      rfl
    obtain ⟨hnext, ⟨depth, hdepth⟩, hsame⟩ :=
      hanswer query state reply next hasked.1 hstate hearly hreply
    have hstart' : ∀ depth, start depth → (resume reply).run? (early depth) ≠ none := by
      intro depth' hdepth'
      obtain ⟨reply', hreply'⟩ :=
        Option.ne_none_iff_exists'.mp (hearly depth' hdepth')
      have hrun' := hstart depth' hdepth'
      rw [run?_await_of_some hreply', hsame depth' reply' hreply'] at hrun'
      exact hrun'
    obtain ⟨hfinal, depth', hdepth'⟩ :=
      ih reply (hasked.2 reply) hnext hstart' hrest
    refine ⟨hfinal, max depth depth', ?_⟩
    rw [run?_await_of_some (answers_mono hmore (Nat.le_max_left depth depth') hdepth)]
    exact run?_mono
      (fun other reply' h =>
        answers_mono hmore (Nat.le_max_right depth depth') h) hdepth'

def Relays (fatal : F → Prop) : Coroutine Q (Except F R) (Except F α) → Prop
  | .done result => ∀ fault, result = .error fault → ¬ fatal fault
  | .await _ resume =>
    (∀ fault, fatal fault → resume (.error fault) = .done (.error fault)) ∧
      ∀ reply, (∀ fault, reply = .error fault → ¬ fatal fault) → (resume reply).Relays fatal

/-- Answers with a fault of the kind lead to one relation of states, all other
answers to another one; so do the courses. -/
theorem perform_relates_relaying {answer : Q → σ → Option (Except F R × σ)}
    {fatal : F → Prop} (related stuck : σ → σ → Prop)
    (hrefl : ∀ state, related state state)
    (htrans : ∀ first second third, related first second →
      related second third → related first third)
    (hstuck : ∀ first second third, related first second →
      stuck second third → stuck first third) {asked : Q → Prop}
    (hanswer : ∀ query state reply next, asked query → answer query state = some (reply, next) →
        ((∀ fault, reply = .error fault → ¬ fatal fault) → related state next) ∧
        ∀ fault, reply = .error fault → fatal fault → stuck state next)
    {code : Coroutine Q (Except F R) (Except F α)} (hrelays : code.Relays fatal)
    (hasked : code.Always asked) {result : Except F α} {final : σ}
    (hrun : code.perform answer state = some (result, final)) :
    ((∀ fault, result = .error fault → ¬ fatal fault) → related state final) ∧
    ∀ fault, result = .error fault → fatal fault → stuck state final := by
  induction code generalizing state with
  | done value =>
    cases hrun
    refine ⟨fun _ => hrefl _, ?_⟩
    intro fault hfault hfatal
    exact absurd hfatal (hrelays fault hfault)
  | await query resume ih =>
    obtain ⟨reply, next, hreply, hrest⟩ := perform_await_eq_some.mp hrun
    obtain ⟨hrelated, hends⟩ :=
      hanswer query state reply next hasked.1 hreply
    by_cases hcalm : ∀ fault, reply = .error fault → ¬ fatal fault
    · obtain ⟨hfinal, hfails⟩ :=
        ih reply (hrelays.2 reply hcalm) (hasked.2 reply) hrest
      constructor
      · intro hresult
        exact htrans _ _ _ (hrelated hcalm) (hfinal hresult)
      · intro fault hfault hfatal
        exact hstuck _ _ _ (hrelated hcalm) (hfails fault hfault hfatal)
    · push Not at hcalm
      obtain ⟨fault, rfl, hfatal⟩ := hcalm
      rw [hrelays.1 fault hfatal] at hrest
      cases hrest
      constructor
      · intro hresult
        exact absurd hfatal (hresult fault rfl)
      · intro _ _ _
        exact hends fault rfl hfatal

/-- A coroutine which ends without a fault of the kind has met none: replies
with such a fault do not matter. -/
theorem run?_of_relays (fatal : F → Prop) {answer answer' : Q → Option (Except F R)}
    (hmore : ∀ query reply, answer query = some reply →
      (∀ fault, reply = .error fault → ¬ fatal fault) → answer' query = some reply)
    {code : Coroutine Q (Except F R) (Except F α)}
    (hrelays : code.Relays fatal) {result : Except F α}
    (hcalm : ∀ fault, result = .error fault → ¬ fatal fault)
    (hrun : code.run? answer = some result) :
    code.run? answer' = some result := by
  induction code with
  | done value => exact hrun
  | await query resume ih =>
    rw [run?, Option.bind_eq_some_iff] at hrun
    obtain ⟨reply, hreply, hrest⟩ := hrun
    have hreply' : ∀ fault, reply = .error fault → ¬ fatal fault := by
      rintro fault rfl hfatal
      rw [hrelays.1 fault hfatal] at hrest
      cases hrest
      exact hcalm fault rfl hfatal
    rw [run?_await_of_some (hmore query reply hreply hreply')]
    exact ih reply (hrelays.2 reply hreply') hrest

def Respects (asked : Q → Prop) (good : R → Prop) : Coroutine Q R α → (α → Prop) → Prop
  | .done result, ends => ends result
  | .await query resume, ends =>
    asked query ∧ ∀ reply, good reply → (resume reply).Respects asked good ends

theorem Respects.imp {asked : Q → Prop} {good : R → Prop}
    {ends ends' : α → Prop} (himp : ∀ result, ends result → ends' result)
    (hcode : code.Respects asked good ends) :
    code.Respects asked good ends' := by
  induction code with
  | done result => exact himp result hcode
  | await query resume ih =>
    exact ⟨hcode.1, fun reply hreply => ih reply (hcode.2 reply hreply)⟩

theorem Respects.bind {asked : Q → Prop} {good : R → Prop} {middle : α → Prop}
    {ends : β → Prop} {next : α → Coroutine Q R β}
    (hcode : code.Respects asked good middle) (hnext : ∀ result, middle result →
      (next result).Respects asked good ends) :
    (code.bind next).Respects asked good ends := by
  induction code with
  | done result => exact hnext result hcode
  | await query resume ih =>
    exact ⟨hcode.1, fun reply hreply => ih reply (hcode.2 reply hreply)⟩

theorem respects_true (code : Coroutine Q R α) :
    code.Respects (fun _ => True) (fun _ => True) (fun _ => True) := by
  induction code with
  | done result => trivial
  | await query resume ih => exact ⟨trivial, fun reply _ => ih reply⟩

theorem perform_respects {asked : Q → Prop} {good : R → Prop}
    (hanswer : ∀ query state reply next, asked query → invariant state →
      answer query state = some (reply, next) → invariant next ∧ good reply)
    {ends : α → Prop} (hcode : code.Respects asked good ends)
    (hstate : invariant state) {final : σ}
    (hrun : code.perform answer state = some (result, final)) :
    invariant final ∧ ends result := by
  induction code generalizing state with
  | done value =>
    cases hrun
    exact ⟨hstate, hcode⟩
  | await query resume ih =>
    obtain ⟨reply, next, hreply, hrest⟩ := perform_await_eq_some.mp hrun
    obtain ⟨hnext, hgood⟩ :=
      hanswer query state reply next hcode.1 hstate hreply
    exact ih reply (hcode.2 reply hgood) hnext hrest

end Coroutine

namespace Async

variable {Q R F α β γ : Type} {fatal : F → Prop}

def Relays (fatal : F → Prop) (code : Async Q (Except F R) F α) : Prop :=
  Coroutine.Relays fatal code

namespace Relays

theorem pure (value : α) : Relays fatal (Pure.pure value : Async Q (Except F R) F α) := by
  intro fault hfault
  cases hfault

theorem throw {fault : F} (hfault : ¬ fatal fault) :
    Relays fatal (Async.throw fault : Async Q (Except F R) F α) := by
  intro other hother
  cases hother
  exact hfault

theorem ask (query : Q) : Relays fatal (Async.ask query : Async Q (Except F R) F R) :=
  ⟨fun _ _ => rfl, fun _ hreply => hreply⟩

theorem bind {code : Async Q (Except F R) F α}
    {next : α → Async Q (Except F R) F β} (hcode : Relays fatal code)
    (hnext : ∀ value, Relays fatal (next value)) :
    Relays fatal (code >>= next) := by
  show Coroutine.Relays fatal (Coroutine.bind code (proceed next))
  induction code with
  | done result =>
    cases result with
    | ok value => exact hnext value
    | error fault =>
      intro other hother
      cases hother
      exact hcode fault rfl
  | await query resume ih =>
    refine ⟨?_, fun reply hreply => ih reply (hcode.2 reply hreply)⟩
    intro fault hfatal
    show Coroutine.bind (resume (.error fault)) (proceed next) = _
    rw [hcode.1 fault hfatal]
    rfl

theorem catching {code : Async Q (Except F R) F α}
    {handler : F → Async Q (Except F R) F α} (hcode : Relays fatal code)
    (hhandler : ∀ fault, ¬ fatal fault → Relays fatal (handler fault))
    (hpass : ∀ fault, fatal fault → handler fault = Async.throw fault) :
    Relays fatal (code.catching handler) := by
  show Coroutine.Relays fatal (Coroutine.bind code (handle handler))
  induction code with
  | done result =>
    cases result with
    | ok value =>
      intro fault hfault
      cases hfault
    | error fault => exact hhandler fault (hcode fault rfl)
  | await query resume ih =>
    refine ⟨?_, fun reply hreply => ih reply (hcode.2 reply hreply)⟩
    intro fault hfatal
    show Coroutine.bind (resume (.error fault)) (handle handler) = _
    rw [hcode.1 fault hfatal]
    exact hpass fault hfatal

end Relays

def Respects (asked : Q → Prop) (good : R → Prop) (ends : Except F α → Prop)
    (code : Async Q R F α) : Prop :=
  Coroutine.Respects asked good code ends

namespace Respects

variable {R : Type} {asked : Q → Prop} {good : R → Prop}

theorem bind {middle : Except F α → Prop} {ends : Except F β → Prop}
    {code : Async Q R F α} {next : α → Async Q R F β}
    (hcode : Respects asked good middle code)
    (hnext : ∀ value, middle (.ok value) → Respects asked good ends (next value))
    (hfault : ∀ fault, middle (.error fault) → ends (.error fault)) :
    Respects asked good ends (code >>= next) := by
  refine Coroutine.Respects.bind hcode ?_
  intro result hresult
  cases result with
  | ok value => exact hnext value hresult
  | error fault => exact hfault fault hresult

theorem catching {middle ends : Except F α → Prop} {code : Async Q R F α}
    {handler : F → Async Q R F α}
    (hcode : Respects asked good middle code)
    (hvalue : ∀ value, middle (.ok value) → ends (.ok value))
    (hhandler : ∀ fault, middle (.error fault) → Respects asked good ends (handler fault)) :
    Respects asked good ends (code.catching handler) := by
  refine Coroutine.Respects.bind hcode ?_
  intro result hresult
  cases result with
  | ok value => exact hvalue value hresult
  | error fault => exact hhandler fault hresult

end Respects

end Async

end PyFly.Library
