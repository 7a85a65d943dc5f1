import Mathlib.Algebra.Order.Field.Basic
import Mathlib.Data.List.Count
import Mathlib.Data.List.Induction
import Mathlib.Tactic.Linarith

/-!
# Token buckets

Tokens flow into a bucket at a constant rate until it is full; who finds a
whole token takes it.  In any window of time no more tokens are taken than the
bucket holds and than flow in, and who is refused finds a window in which all
of these were taken.
-/

namespace PyFly.Library

open List

structure TokenBucket (K : Type*) where
  capacity : K
  rate : K
  level : K
  time : K

def countWithin {K : Type*} [LinearOrder K] (first last : K) (times : List K) : ℕ :=
  times.countP fun time => first ≤ time && time ≤ last

section Counting

variable {K : Type*} [LinearOrder K] {first last : K}

@[simp] theorem countWithin_nil : countWithin first last [] = 0 := rfl

theorem countWithin_append (first last : K) (front back : List K) :
    countWithin first last (front ++ back) =
      countWithin first last front + countWithin first last back :=
  countP_append

theorem countWithin_cons_le (first last time : K) (times : List K) :
    countWithin first last (time :: times) ≤ countWithin first last times + 1 := by
  rw [countWithin, countP_cons]
  split
  · exact le_refl _
  · exact Nat.le_succ _

theorem countWithin_cons_of_lt {time : K} (h : time < first) (times : List K) :
    countWithin first last (time :: times) = countWithin first last times := by
  rw [countWithin, countP_cons_of_neg]
  · rfl
  · simp [h]

theorem countWithin_singleton_of_mem {time : K} (hfirst : first ≤ time)
    (hlast : time ≤ last) : countWithin first last [time] = 1 := by
  simp [countWithin, hfirst, hlast]

theorem countWithin_eq_zero {times : List K} (h : ∀ time ∈ times, time < first ∨ last < time) :
    countWithin first last times = 0 := by
  refine countP_eq_zero.mpr ?_
  intro time htime hwithin
  rw [Bool.and_eq_true, decide_eq_true_eq, decide_eq_true_eq] at hwithin
  rcases h time htime with hlt | hlt
  · exact absurd hwithin.1 (not_le_of_gt hlt)
  · exact absurd hwithin.2 (not_le_of_gt hlt)

theorem countWithin_congr_last {last' : K} {times : List K}
    (h : ∀ time ∈ times, time ≤ last) (hlast : last ≤ last') :
    countWithin first last' times = countWithin first last times := by
  refine countP_congr fun time htime => ?_
  simp [h time htime, (h time htime).trans hlast]

/-- Times which do not go back, from some time on. -/
def Later (start : K) (times : List K) : Prop :=
  (start :: times).Pairwise (· ≤ ·)

variable {start now time : K} {times : List K}

theorem Later.head (h : Later start (now :: times)) : start ≤ now :=
  rel_of_pairwise_cons h mem_cons_self

theorem Later.tail (h : Later start (now :: times)) : Later now times :=
  h.of_cons

theorem Later.cons_self (h : Later start (now :: times)) : Later now (now :: times) :=
  pairwise_cons.mpr ⟨fun time htime => by
    rcases mem_cons.mp htime with rfl | hmem
    · exact le_refl _
    · exact rel_of_pairwise_cons h.tail hmem, h.tail⟩

theorem Later.le (h : Later start times) (htime : time ∈ times) : start ≤ time :=
  rel_of_pairwise_cons h htime

end Counting

namespace TokenBucket

variable {K : Type*} [Field K] [LinearOrder K]

def levelAt (bucket : TokenBucket K) (now : K) : K :=
  min bucket.capacity (bucket.level + (now - bucket.time) * bucket.rate)

def refill (bucket : TokenBucket K) (now : K) : TokenBucket K :=
  { bucket with level := bucket.levelAt now, time := now }

def take (bucket : TokenBucket K) (now : K) : TokenBucket K × Bool :=
  if bucket.levelAt now < 1 then (bucket.refill now, false)
  else ({ bucket.refill now with level := bucket.levelAt now - 1 }, true)

def after (bucket : TokenBucket K) (times : List K) : TokenBucket K :=
  times.foldl (fun bucket now => (bucket.take now).1) bucket

def granted (bucket : TokenBucket K) : List K → List K
  | [] => []
  | now :: times =>
    if (bucket.take now).2 then now :: (bucket.take now).1.granted times
    else (bucket.take now).1.granted times

structure Sound (bucket : TokenBucket K) : Prop where
  capacity : 0 ≤ bucket.capacity
  rate : 0 ≤ bucket.rate
  level : 0 ≤ bucket.level
  full : bucket.level ≤ bucket.capacity

section Step

variable {bucket : TokenBucket K} {now : K}

@[simp] theorem take_capacity :
    (bucket.take now).1.capacity = bucket.capacity := by
  unfold take
  split <;> rfl

@[simp] theorem take_rate : (bucket.take now).1.rate = bucket.rate := by
  unfold take
  split <;> rfl

@[simp] theorem take_time : (bucket.take now).1.time = now := by
  unfold take
  split <;> rfl

theorem take_refused (h : bucket.levelAt now < 1) :
    bucket.take now = (bucket.refill now, false) :=
  if_pos h

theorem take_granted (h : 1 ≤ bucket.levelAt now) : bucket.take now =
      ({ bucket.refill now with level := bucket.levelAt now - 1 }, true) :=
  if_neg (not_lt_of_ge h)

theorem granted_cons_refused (h : bucket.levelAt now < 1) (times : List K) :
    bucket.granted (now :: times) = (bucket.take now).1.granted times := by
  rw [granted, take_refused h]
  rfl

theorem granted_cons_granted (h : 1 ≤ bucket.levelAt now) (times : List K) :
    bucket.granted (now :: times) = now :: (bucket.take now).1.granted times := by
  rw [granted, take_granted h]
  rfl

theorem levelAt_le_capacity (bucket : TokenBucket K) (now : K) :
    bucket.levelAt now ≤ bucket.capacity :=
  min_le_left _ _

theorem levelAt_le (bucket : TokenBucket K) (now : K) : bucket.levelAt now ≤
    bucket.level + (now - bucket.time) * bucket.rate :=
  min_le_right _ _

theorem Sound.levelAt_time (h : bucket.Sound) : bucket.levelAt bucket.time = bucket.level := by
  rw [levelAt, sub_self, zero_mul, add_zero]
  exact min_eq_right h.full

variable [IsStrictOrderedRing K]

theorem Sound.levelAt_nonneg (h : bucket.Sound) (hnow : bucket.time ≤ now) :
    0 ≤ bucket.levelAt now :=
  le_min h.capacity (add_nonneg h.level (mul_nonneg (sub_nonneg.mpr hnow) h.rate))

theorem Sound.take (h : bucket.Sound) (hnow : bucket.time ≤ now) :
    (bucket.take now).1.Sound := by
  constructor
  · rw [take_capacity]
    exact h.capacity
  · rw [take_rate]
    exact h.rate
  · rcases lt_or_ge (bucket.levelAt now) 1 with hlevel | hlevel
    · rw [take_refused hlevel]
      exact h.levelAt_nonneg hnow
    · rw [take_granted hlevel]
      exact sub_nonneg.mpr hlevel
  · rcases lt_or_ge (bucket.levelAt now) 1 with hlevel | hlevel
    · rw [take_refused hlevel]
      exact levelAt_le_capacity bucket now
    · rw [take_granted hlevel]
      exact (sub_le_self _ zero_le_one).trans (levelAt_le_capacity bucket now)

end Step

section Run

variable {bucket : TokenBucket K} {times : List K}

theorem after_append_singleton (bucket : TokenBucket K) (times : List K) (now : K) :
    bucket.after (times ++ [now]) = ((bucket.after times).take now).1 := by
  rw [after, foldl_append]
  rfl

theorem granted_append_singleton (bucket : TokenBucket K) (times : List K) (now : K) :
    bucket.granted (times ++ [now]) =
      bucket.granted times ++ (bucket.after times).granted [now] := by
  induction times generalizing bucket with
  | nil => rfl
  | cons time times ih =>
    rw [cons_append, granted, granted, ih]
    split <;> rfl

@[simp] theorem after_capacity (bucket : TokenBucket K) (times : List K) :
    (bucket.after times).capacity = bucket.capacity := by
  induction times using List.reverseRecOn with
  | nil => rfl
  | append_singleton times now ih =>
    rw [after_append_singleton, take_capacity, ih]

@[simp] theorem after_rate (bucket : TokenBucket K) (times : List K) :
    (bucket.after times).rate = bucket.rate := by
  induction times using List.reverseRecOn with
  | nil => rfl
  | append_singleton times now ih =>
    rw [after_append_singleton, take_rate, ih]

theorem after_time_le {now : K} (h : Later bucket.time (times ++ [now])) :
    (bucket.after times).time ≤ now := by
  rcases eq_nil_or_concat times with rfl | ⟨front, last, rfl⟩
  · exact h.head
  · rw [concat_eq_append, after_append_singleton, take_time]
    rw [concat_eq_append, append_assoc] at h
    exact rel_of_pairwise_cons (pairwise_append.mp h.of_cons).2.1 mem_cons_self

theorem mem_of_mem_granted {time : K} (h : time ∈ bucket.granted times) : time ∈ times := by
  induction times generalizing bucket with
  | nil => exact h
  | cons now times ih =>
    rw [granted] at h
    split at h
    · rcases mem_cons.mp h with rfl | h
      · exact mem_cons_self
      · exact mem_cons_of_mem _ (ih h)
    · exact mem_cons_of_mem _ (ih h)

theorem countWithin_granted_of_lt {start first last : K}
    (h : Later start times) (hlast : last < start) :
    countWithin first last (bucket.granted times) = 0 := by
  apply countWithin_eq_zero
  intro time htime
  exact .inr (hlast.trans_le (h.le (mem_of_mem_granted htime)))

variable [IsStrictOrderedRing K]

theorem countWithin_granted_cons_le (bucket : TokenBucket K)
    (first last now : K) (times : List K) :
    (countWithin first last (bucket.granted (now :: times)) : K) + (bucket.take now).1.level ≤
      countWithin first last ((bucket.take now).1.granted times) + bucket.levelAt now := by
  rcases lt_or_ge (bucket.levelAt now) 1 with hlevel | hlevel
  · rw [granted_cons_refused hlevel, take_refused hlevel]
    exact le_refl _
  · rw [granted_cons_granted hlevel]
    have hcount := countWithin_cons_le first last now ((bucket.take now).1.granted times)
    have hcast : (countWithin first last (now :: (bucket.take now).1.granted times) : K) ≤
          countWithin first last ((bucket.take now).1.granted times) + 1 := by
      exact_mod_cast hcount
    have htaken : (bucket.take now).1.level = bucket.levelAt now - 1 := by
      rw [take_granted hlevel]
    linarith

theorem countWithin_granted_le_level (hsound : bucket.Sound)
    (h : Later bucket.time times) {last : K} (hlast : bucket.time ≤ last)
    (first : K) :
    (countWithin first last (bucket.granted times) : K) ≤
      bucket.level + (last - bucket.time) * bucket.rate := by
  have hflow := mul_nonneg (sub_nonneg.mpr hlast) hsound.rate
  induction times generalizing bucket with
  | nil =>
    rw [granted, countWithin_nil, Nat.cast_zero]
    exact add_nonneg hsound.level hflow
  | cons now times ih =>
    rcases lt_or_ge last now with hended | hopen
    · rw [countWithin_granted_of_lt h.cons_self hended, Nat.cast_zero]
      exact add_nonneg hsound.level hflow
    · have hcount := ih (hsound.take h.head) (by rw [take_time]; exact h.tail)
        (by rw [take_time]; exact hopen)
        (by
          rw [take_time, take_rate]
          exact mul_nonneg (sub_nonneg.mpr hopen) hsound.rate)
      rw [take_time, take_rate] at hcount
      have hstep := countWithin_granted_cons_le bucket first last now times
      have hlevel := levelAt_le bucket now
      linarith

theorem countWithin_granted_le (hsound : bucket.Sound)
    (h : Later bucket.time times) {first last : K} (hwindow : first ≤ last) :
    (countWithin first last (bucket.granted times) : K) ≤
      bucket.capacity + (last - first) * bucket.rate := by
  have hflow := mul_nonneg (sub_nonneg.mpr hwindow) hsound.rate
  induction times generalizing bucket with
  | nil =>
    rw [granted, countWithin_nil, Nat.cast_zero]
    exact add_nonneg hsound.capacity hflow
  | cons now times ih =>
    have hrest : Later (bucket.take now).1.time times := by
      rw [take_time]
      exact h.tail
    rcases lt_or_ge now first with hbefore | hopen
    · have hcount := ih (hsound.take h.head) hrest (by rw [take_rate]; exact hflow)
      rw [take_capacity, take_rate] at hcount
      refine le_trans (le_of_eq (congrArg Nat.cast ?_)) hcount
      rw [granted]
      split
      · exact countWithin_cons_of_lt hbefore _
      · rfl
    · have hstep := countWithin_granted_cons_le bucket first last now times
      have hlevel := levelAt_le_capacity bucket now
      rcases lt_or_ge last now with hended | hinside
      · rw [countWithin_granted_of_lt h.cons_self hended, Nat.cast_zero]
        exact add_nonneg hsound.capacity hflow
      · have htime : (bucket.take now).1.time ≤ last := by
          rw [take_time]
          exact hinside
        have hcount := countWithin_granted_le_level (hsound.take h.head) hrest htime first
        rw [take_time, take_rate] at hcount
        have hlater := mul_le_mul_of_nonneg_right (sub_le_sub_left hopen last) hsound.rate
        linarith

/-! ## Who is refused -/

def Accounted (bucket : TokenBucket K) (start : K) (grants : List K) (now : K)
    (level : K) : Prop :=
  ∃ since, start ≤ since ∧ since ≤ now ∧ level + countWithin since now grants =
      bucket.capacity + (now - since) * bucket.rate

theorem accounted_levelAt {start now : K} {grants : List K}
    (hsound : bucket.Sound) (hgrants : ∀ time ∈ grants, time ≤ bucket.time)
    (h : bucket.Accounted start grants bucket.time bucket.level)
    (hnow : bucket.time ≤ now) :
    bucket.Accounted start grants now (bucket.levelAt now) := by
  obtain ⟨since, hstart, hsince, haccount⟩ := h
  rcases le_total bucket.capacity
      (bucket.level + (now - bucket.time) * bucket.rate) with hfull | hopen
  · have hcapped : bucket.levelAt now = bucket.capacity := min_eq_left hfull
    rcases hnow.eq_or_lt with rfl | hlater
    · rw [hsound.levelAt_time]
      exact ⟨since, hstart, hsince, haccount⟩
    · refine ⟨now, (hstart.trans hsince).trans hnow, le_refl _, ?_⟩
      have hzero : countWithin now now grants = 0 :=
        countWithin_eq_zero fun time htime =>
          .inl ((hgrants time htime).trans_lt hlater)
      rw [hcapped, hzero, Nat.cast_zero, add_zero, sub_self, zero_mul, add_zero]
  · refine ⟨since, hstart, hsince.trans hnow, ?_⟩
    have hlevelAt : bucket.levelAt now =
        bucket.level + (now - bucket.time) * bucket.rate := min_eq_right hopen
    rw [countWithin_congr_last hgrants hnow, hlevelAt]
    linarith

structure Filled (bucket : TokenBucket K) (times : List K) : Prop where
  sound : (bucket.after times).Sound
  earlier : ∀ time ∈ bucket.granted times, time ≤ (bucket.after times).time
  accounted : (bucket.after times).Accounted bucket.time
    (bucket.granted times) (bucket.after times).time
    (bucket.after times).level

omit [IsStrictOrderedRing K] in
theorem filled_nil (hsound : bucket.Sound)
    (hfull : bucket.level = bucket.capacity) : bucket.Filled [] := by
  have haccount : bucket.level + countWithin bucket.time bucket.time (bucket.granted []) =
        bucket.capacity + (bucket.time - bucket.time) * bucket.rate := by
    rw [granted, countWithin_nil, Nat.cast_zero, add_zero, sub_self, zero_mul, add_zero]
    exact hfull
  exact ⟨hsound, fun time htime => absurd htime not_mem_nil,
    bucket.time, le_refl _, le_refl _, haccount⟩

theorem Filled.append_singleton (h : bucket.Filled times) {now : K}
    (hnow : (bucket.after times).time ≤ now) :
    bucket.Filled (times ++ [now]) := by
  have haccounted := accounted_levelAt h.sound h.earlier h.accounted hnow
  have hbefore : ∀ time ∈ bucket.granted times, time ≤ now :=
    fun time htime => (h.earlier time htime).trans hnow
  have hgranted := granted_append_singleton bucket times now
  constructor
  · rw [after_append_singleton]
    exact h.sound.take hnow
  · rw [after_append_singleton, take_time, hgranted]
    intro time htime
    rcases mem_append.mp htime with htime | htime
    · exact hbefore time htime
    · exact le_of_eq (mem_singleton.mp (mem_of_mem_granted htime))
  · rw [after_append_singleton, take_time, hgranted]
    obtain ⟨since, hstart, hsince, haccount⟩ := haccounted
    refine ⟨since, hstart, hsince, ?_⟩
    rw [take_capacity, take_rate]
    rcases lt_or_ge ((bucket.after times).levelAt now) 1 with hlevel | hlevel
    · rw [granted_cons_refused hlevel, granted, append_nil, take_refused hlevel]
      exact haccount
    · rw [granted_cons_granted hlevel, granted, take_granted hlevel,
        countWithin_append, countWithin_singleton_of_mem hsince (le_refl _)]
      push_cast
      linarith

theorem filled (hsound : bucket.Sound) (hfull : bucket.level = bucket.capacity)
    (h : Later bucket.time times) : bucket.Filled times := by
  induction times using List.reverseRecOn with
  | nil => exact filled_nil hsound hfull
  | append_singleton times now ih =>
    have hfront : Later bucket.time times :=
      h.sublist ((sublist_append_left times [now]).cons_cons _)
    exact (ih hfront).append_singleton (after_time_le h)

theorem Filled.refused (h : bucket.Filled times) {now : K}
    (hnow : (bucket.after times).time ≤ now)
    (hlevel : (bucket.after times).levelAt now < 1) :
    ∃ since, bucket.time ≤ since ∧ since ≤ now ∧ bucket.capacity + (now - since) * bucket.rate <
        countWithin since now (bucket.granted times) + 1 := by
  obtain ⟨since, hstart, hsince, haccount⟩ :=
    accounted_levelAt h.sound h.earlier h.accounted hnow
  refine ⟨since, hstart, hsince, ?_⟩
  rw [after_capacity, after_rate] at haccount
  linarith

end Run

end TokenBucket

end PyFly.Library
