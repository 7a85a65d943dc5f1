import Mathlib.Algebra.Order.Field.Rat
import PyFly.Library.TokenBucket

/-!
# Rate limiting

A limiter is a token bucket.  `acquire` refills it and takes a token under a
lock, and so does a decorated coroutine function; the wrapper of any other
function refills the bucket and takes the token by itself.
-/

namespace PyFly.Resilience

open Library List

/-! ## The limiter -/

structure RateLimiter where
  maxTokens : ℤ
  refillRate : ℚ
  tokens : ℚ
  lastRefill : ℚ
  /-- Whether `_lock` is held. -/
  locked : Bool

inductive Admission
  | admitted
  | rejected (message : String)
  /-- The call waits for the lock. -/
  | waiting

namespace RateLimiter

def new (maxTokens : ℤ) (refillRate now : ℚ) : RateLimiter where
  maxTokens := maxTokens
  refillRate := refillRate
  tokens := maxTokens
  lastRefill := now
  locked := false

/-- `_refill`, with what `time.monotonic()` returns. -/
def refill (limiter : RateLimiter) (now : ℚ) : RateLimiter :=
  let elapsed := now - limiter.lastRefill
  { limiter with
    tokens := min limiter.maxTokens
      (limiter.tokens + elapsed * limiter.refillRate)
    lastRefill := now }

def availableTokens (limiter : RateLimiter) (now : ℚ) : ℚ :=
  let elapsed := now - limiter.lastRefill
  min limiter.maxTokens (limiter.tokens + elapsed * limiter.refillRate)

/-- The lock is held from the first line to the last one, and nothing awaits in
between. -/
def acquire (limiter : RateLimiter) (now : ℚ) : RateLimiter × Admission :=
  if limiter.locked then (limiter, .waiting)
  else
    let refilled := { limiter with locked := true }.refill now
    if refilled.tokens < 1 then
      ({ refilled with locked := false }, .rejected "Rate limit exceeded")
    else
      ({ refilled with tokens := refilled.tokens - 1, locked := false },
        .admitted)

def wrapper (limiter : RateLimiter) (now : ℚ) : RateLimiter × Admission :=
  limiter.acquire now

def syncWrapper (limiter : RateLimiter) (now : ℚ) : RateLimiter × Admission :=
  let refilled := limiter.refill now
  if refilled.tokens < 1 then (refilled, .rejected "Rate limit exceeded")
  else ({ refilled with tokens := refilled.tokens - 1 }, .admitted)

end RateLimiter

/-- Who wants a token: a call of `acquire`, or of a decorated function. -/
inductive Caller
  | acquire
  | decorated (isCoroutineFunction : Bool)

namespace RateLimiter

def request (limiter : RateLimiter) (now : ℚ) : Caller → RateLimiter × Admission
  | .acquire => limiter.acquire now
  | .decorated true => limiter.wrapper now
  | .decorated false => limiter.syncWrapper now

def after (limiter : RateLimiter) (calls : List (Caller × ℚ)) : RateLimiter :=
  calls.foldl (fun limiter call => (limiter.request call.2 call.1).1) limiter

def admitted (limiter : RateLimiter) : List (Caller × ℚ) → List ℚ
  | [] => []
  | (caller, now) :: calls =>
    match limiter.request now caller with
    | (after, .admitted) => now :: after.admitted calls
    | (after, _) => after.admitted calls

/-! ## The bucket of a limiter -/

def bucket (limiter : RateLimiter) : TokenBucket ℚ where
  capacity := limiter.maxTokens
  rate := limiter.refillRate
  level := limiter.tokens
  time := limiter.lastRefill

theorem availableTokens_eq (limiter : RateLimiter) (now : ℚ) :
    limiter.availableTokens now = limiter.bucket.levelAt now := rfl

structure Admits (limiter : RateLimiter) (now : ℚ)
    (outcome : RateLimiter × Admission) : Prop where
  bucket : outcome.1.bucket = (limiter.bucket.take now).1
  unlocked : outcome.1.locked = false
  admission : (limiter.bucket.take now).2 = true ∧ outcome.2 = .admitted ∨
    limiter.availableTokens now < 1 ∧ (limiter.bucket.take now).2 = false ∧
        outcome.2 = .rejected "Rate limit exceeded"

theorem syncWrapper_eq (limiter : RateLimiter) (now : ℚ) :
    limiter.syncWrapper now = if limiter.availableTokens now < 1 then
        (limiter.refill now, .rejected "Rate limit exceeded")
      else
        ({ limiter.refill now with
            tokens := limiter.availableTokens now - 1 }, .admitted) := rfl

variable {limiter : RateLimiter}

theorem syncWrapper_admits (h : limiter.locked = false) (now : ℚ) :
    limiter.Admits now (limiter.syncWrapper now) := by
  rw [syncWrapper_eq]
  by_cases hlevel : limiter.availableTokens now < 1
  · have htake : limiter.bucket.take now =
        (limiter.bucket.refill now, false) := TokenBucket.take_refused hlevel
    rw [if_pos hlevel]
    refine ⟨?_, h, .inr ⟨hlevel, ?_, rfl⟩⟩
    · rw [htake]
      rfl
    · rw [htake]
  · have htake : limiter.bucket.take now = ({ limiter.bucket.refill now with
            level := limiter.bucket.levelAt now - 1 }, true) :=
      TokenBucket.take_granted (not_lt.mp hlevel)
    rw [if_neg hlevel]
    refine ⟨?_, h, .inl ⟨?_, rfl⟩⟩
    · rw [htake]
      rfl
    · rw [htake]

/-- Nobody else has the lock, so that it is there at once and changes
nothing. -/
theorem acquire_eq_syncWrapper (h : limiter.locked = false) (now : ℚ) :
    limiter.acquire now = limiter.syncWrapper now := by
  obtain ⟨maxTokens, refillRate, tokens, lastRefill, locked⟩ := limiter
  obtain rfl : locked = false := h
  rfl

theorem request_admits (h : limiter.locked = false) (now : ℚ) (caller : Caller) :
    limiter.Admits now (limiter.request now caller) := by
  have hrequest : limiter.request now caller = limiter.syncWrapper now := by
    cases caller with
    | acquire => exact acquire_eq_syncWrapper h now
    | decorated isCoroutineFunction =>
      cases isCoroutineFunction with
      | true => exact acquire_eq_syncWrapper h now
      | false => rfl
  rw [hrequest]
  exact syncWrapper_admits h now

/-! ## Calls one after another -/

theorem after_bucket (h : limiter.locked = false) (calls : List (Caller × ℚ)) :
    (limiter.after calls).locked = false ∧ (limiter.after calls).bucket =
        limiter.bucket.after (calls.map Prod.snd) := by
  induction calls generalizing limiter with
  | nil => exact ⟨h, rfl⟩
  | cons call calls ih =>
    obtain ⟨caller, now⟩ := call
    have hadmits := request_admits h now caller
    obtain ⟨hunlocked, hbucket⟩ := ih hadmits.unlocked
    refine ⟨hunlocked, hbucket.trans ?_⟩
    rw [hadmits.bucket]
    rfl

theorem admitted_eq_granted (h : limiter.locked = false) (calls : List (Caller × ℚ)) :
    limiter.admitted calls = limiter.bucket.granted (calls.map Prod.snd) := by
  induction calls generalizing limiter with
  | nil => rfl
  | cons call calls ih =>
    obtain ⟨caller, now⟩ := call
    have hadmits := request_admits h now caller
    have hrest := ih hadmits.unlocked
    rw [hadmits.bucket] at hrest
    have hadmission := hadmits.admission
    rw [admitted, map_cons, TokenBucket.granted]
    rcases hcall : limiter.request now caller with ⟨after, admission⟩
    rw [hcall] at hadmission hrest
    dsimp only at hadmission hrest
    rcases hadmission with ⟨htaken, rfl⟩ | ⟨-, hrefused, rfl⟩
    · rw [if_pos htaken]
      exact congrArg (now :: ·) hrest
    · rw [if_neg (ne_true_of_eq_false hrefused)]
      exact hrest

structure KeepsRate (limiter : RateLimiter) (calls : List (Caller × ℚ)) :
    Prop where
  within : ∀ front back, calls = front ++ back →
    0 ≤ (limiter.after front).tokens ∧ (limiter.after front).tokens ≤ limiter.maxTokens
  window : ∀ first d, 0 ≤ d → (countWithin first (first + d) (limiter.admitted calls) : ℚ) ≤
      limiter.maxTokens + limiter.refillRate * d
  outcome : ∀ front caller now back, calls = front ++ (caller, now) :: back →
    ((limiter.after front).request now caller).2 = .admitted ∨ (∃ message,
        ((limiter.after front).request now caller).2 = .rejected message) ∧
        (limiter.after front).availableTokens now < 1 ∧
        ∃ since, limiter.lastRefill ≤ since ∧ since ≤ now ∧
          limiter.maxTokens + limiter.refillRate * (now - since) <
            countWithin since now (limiter.admitted front) + 1

theorem new_sound {maxTokens : ℤ} {refillRate : ℚ} (hmax : 1 ≤ maxTokens)
    (hrate : 0 ≤ refillRate) (started : ℚ) :
    (new maxTokens refillRate started).bucket.Sound := by
  have hcapacity : (0 : ℚ) ≤ maxTokens := by
    exact_mod_cast zero_le_one.trans hmax
  exact ⟨hcapacity, hrate, hcapacity, le_refl _⟩

/-- For all calls, at times which do not go back. -/
theorem new_keepsRate {maxTokens : ℤ} {refillRate started : ℚ}
    {calls : List (Caller × ℚ)} (hmax : 1 ≤ maxTokens)
    (hrate : 0 ≤ refillRate) (hcalls : Later started (calls.map Prod.snd)) :
    (new maxTokens refillRate started).KeepsRate calls := by
  have hfree : (new maxTokens refillRate started).locked = false := rfl
  have hsound := new_sound hmax hrate started
  have hfront : ∀ front back, calls = front ++ back →
      (new maxTokens refillRate started).bucket.Filled (front.map Prod.snd) := by
    rintro front back rfl
    rw [map_append] at hcalls
    exact TokenBucket.filled hsound rfl (hcalls.sublist ((sublist_append_left _ _).cons_cons _))
  constructor
  · intro front back hsplit
    have hafter := (hfront front back hsplit).sound
    obtain ⟨-, hbucket⟩ := after_bucket hfree front
    rw [← hbucket] at hafter
    have hcapacity : ((new maxTokens refillRate started).after front).bucket.capacity =
          (new maxTokens refillRate started).maxTokens := by
      rw [hbucket, TokenBucket.after_capacity]
      rfl
    exact ⟨hafter.level, hcapacity ▸ hafter.full⟩
  · intro first d hd
    rw [admitted_eq_granted hfree]
    have hcount := TokenBucket.countWithin_granted_le hsound hcalls
      (le_add_of_nonneg_right hd : first ≤ first + d)
    rw [add_sub_cancel_left, mul_comm] at hcount
    exact hcount
  · intro front caller now back hsplit
    obtain ⟨hunlocked, hbucket⟩ := after_bucket hfree front
    rcases (request_admits hunlocked now caller).admission with
      ⟨-, hadmitted⟩ | ⟨hlevel, -, hrejected⟩
    · exact .inl hadmitted
    · refine .inr ⟨⟨_, hrejected⟩, hlevel, ?_⟩
      have hnow : ((new maxTokens refillRate started).bucket.after
          (front.map Prod.snd)).time ≤ now := by
        apply TokenBucket.after_time_le
        rw [hsplit, map_append, map_cons] at hcalls
        exact hcalls.sublist (((List.Sublist.refl _).append
          ((nil_sublist _).cons_cons _)).cons_cons _)
      rw [availableTokens_eq, hbucket] at hlevel
      obtain ⟨since, hstart, hsince, hlt⟩ :=
        (hfront front _ hsplit).refused hnow hlevel
      refine ⟨since, hstart, hsince, ?_⟩
      rw [admitted_eq_granted hfree, mul_comm]
      exact hlt

theorem new_keepsRate_three : (new 2 1 0).KeepsRate
      [(.acquire, 0), (.decorated false, 1), (.decorated true, 1)] :=
  new_keepsRate (by decide) zero_le_one (by unfold Later; decide)

end RateLimiter

end PyFly.Resilience
