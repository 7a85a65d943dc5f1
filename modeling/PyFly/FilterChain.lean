import Mathlib.Data.List.Flatten
import Mathlib.Data.Int.Order.Basic
import Mathlib.Tactic.Common

/-!
# Chains of filters

The middleware folds a list of filters into nested closures.  A filter runs the
rest of the chain as often as its `do_filter` calls `call_next`.
-/

namespace PyFly.Web

open List

/-- What a filter does with a request: its `should_not_filter` is true, or
raises, or `do_filter` runs and calls `call_next` so many times. -/
inductive Conduct
  | bypassed
  | raises
  | runs (calls : ℕ)
  deriving DecidableEq

namespace Conduct

def isRun : Conduct → Bool
  | runs _ => true
  | _ => false

def calls : Conduct → ℕ
  | runs calls => calls
  | _ => 0

def halts : Conduct → Bool
  | raises | runs 0 => true
  | _ => false

end Conduct

variable {φ : Type} (conduct : φ → Conduct)

def wrap (filter : φ) (next : List φ) : List φ :=
  match conduct filter with
  | .bypassed => next
  | .raises => []
  | .runs calls => filter :: (List.replicate calls next).flatten

def chainRuns (filters : List φ) : List φ :=
  filters.foldr (wrap conduct) []

def upToHalt : List φ → List φ
  | [] => []
  | filter :: filters =>
    if (conduct filter).halts then [filter] else filter :: upToHalt filters

def reached (filters : List φ) : List φ :=
  (upToHalt conduct filters).filter fun filter => (conduct filter).isRun

/-- A filter which calls `call_next` more than once is followed only by runs of
one order, and by none of a filter which counts. -/
def RepeatsHarmless (order : φ → ℤ) (Counts : φ → Prop) (filters : List φ) :
    Prop :=
  ∀ front filter back, filters = front ++ filter :: back →
    (∀ other ∈ front, (conduct other).halts = false) →
      1 < (conduct filter).calls → ∀ first ∈ reached conduct back,
          ¬ Counts first ∧ ∀ second ∈ reached conduct back, order first ≤ order second

/-- A filter does not call the rest of the chain before a given one would run a
second time, and does not come after it in the order. -/
def CutShort [DecidableEq φ] (order : φ → ℤ) (filters : List φ) (item : φ) :
    Prop :=
  ∃ front filter back, filters = front ++ filter :: back ∧
    (conduct filter).halts = true ∧ order filter ≤ order item ∧
      (front ++ [filter]).count item ≤ 1

variable {conduct} {order : φ → ℤ} {Counts : φ → Prop} {filter : φ} {filters : List φ}

/-! ## Runs -/

@[simp] theorem chainRuns_nil : chainRuns conduct ([] : List φ) = [] := rfl

theorem chainRuns_cons : chainRuns conduct (filter :: filters) =
    wrap conduct filter (chainRuns conduct filters) := rfl

@[simp] theorem reached_nil : reached conduct ([] : List φ) = [] := rfl

theorem chainRuns_bypassed (h : conduct filter = .bypassed) :
    chainRuns conduct (filter :: filters) = chainRuns conduct filters := by
  simp [chainRuns_cons, wrap, h]

theorem chainRuns_raises (h : conduct filter = .raises) :
    chainRuns conduct (filter :: filters) = [] := by
  simp [chainRuns_cons, wrap, h]

theorem chainRuns_runs {calls : ℕ} (h : conduct filter = .runs calls) :
    chainRuns conduct (filter :: filters) = filter ::
      (List.replicate calls (chainRuns conduct filters)).flatten := by
  simp [chainRuns_cons, wrap, h]

theorem reached_bypassed (h : conduct filter = .bypassed) :
    reached conduct (filter :: filters) = reached conduct filters := by
  simp [reached, upToHalt, Conduct.halts, Conduct.isRun, h]

theorem reached_raises (h : conduct filter = .raises) :
    reached conduct (filter :: filters) = [] := by
  simp [reached, upToHalt, Conduct.halts, Conduct.isRun, h]

theorem reached_halts (h : conduct filter = .runs 0) :
    reached conduct (filter :: filters) = [filter] := by
  simp [reached, upToHalt, Conduct.halts, Conduct.isRun, h]

theorem reached_runs {calls : ℕ} (h : conduct filter = .runs (calls + 1)) :
    reached conduct (filter :: filters) = filter :: reached conduct filters := by
  simp [reached, upToHalt, Conduct.halts, Conduct.isRun, h]

variable {item : φ}

theorem mem_chainRuns : item ∈ chainRuns conduct filters ↔ item ∈ reached conduct filters := by
  induction filters with
  | nil => simp
  | cons filter filters ih =>
    cases hconduct : conduct filter with
    | bypassed =>
      rw [chainRuns_bypassed hconduct, reached_bypassed hconduct, ih]
    | raises => rw [chainRuns_raises hconduct, reached_raises hconduct]
    | runs calls =>
      cases calls with
      | zero => simp [chainRuns_runs hconduct, reached_halts hconduct]
      | succ calls =>
        simp [chainRuns_runs hconduct, reached_runs hconduct, ih]

theorem reached_subset (h : item ∈ reached conduct filters) :
    item ∈ filters ∧ (conduct item).isRun = true := by
  obtain ⟨hmem, hrun⟩ := mem_filter.mp h
  refine ⟨?_, hrun⟩
  clear h hrun
  induction filters with
  | nil => simp [upToHalt] at hmem
  | cons filter filters ih =>
    unfold upToHalt at hmem
    split at hmem
    · simp_all
    · rcases mem_cons.mp hmem with rfl | hmem
      · exact mem_cons_self
      · exact mem_cons_of_mem _ (ih hmem)

theorem repeatsHarmless_cons : RepeatsHarmless conduct order Counts (filter :: filters) ↔
      (1 < (conduct filter).calls → ∀ first ∈ reached conduct filters,
        ¬ Counts first ∧ ∀ second ∈ reached conduct filters, order first ≤ order second) ∧
      ((conduct filter).halts = false → RepeatsHarmless conduct order Counts filters) := by
  constructor
  · intro h
    refine ⟨h [] filter filters rfl (by simp), ?_⟩
    intro hcalls front other back hsplit hfront
    refine h (filter :: front) other back (by rw [hsplit]; rfl) ?_
    intro item hitem
    rcases mem_cons.mp hitem with rfl | hitem
    · exact hcalls
    · exact hfront item hitem
  · rintro ⟨hfirst, hrest⟩ front other back hsplit hfront hcalls
    cases front with
    | nil =>
      obtain ⟨rfl, rfl⟩ := List.cons.inj hsplit
      exact hfirst hcalls
    | cons item front =>
      obtain ⟨rfl, rfl⟩ := List.cons.inj hsplit
      exact hrest (hfront _ mem_cons_self) front other back rfl
        (fun item hitem => hfront item (mem_cons_of_mem _ hitem)) hcalls

theorem chainRuns_of_harmless [DecidableEq φ]
    (hsorted : filters.Pairwise fun first second => order first ≤ order second)
    (h : RepeatsHarmless conduct order Counts filters) :
    (chainRuns conduct filters).Pairwise
        (fun first second => order first ≤ order second) ∧
      ∀ item, Counts item → (chainRuns conduct filters).count item =
          (reached conduct filters).count item := by
  induction filters with
  | nil => simp
  | cons filter filters ih =>
    obtain ⟨hrepeats, hrest⟩ := repeatsHarmless_cons.mp h
    obtain ⟨hfirst, hsorted⟩ := pairwise_cons.mp hsorted
    have hafter : ∀ item ∈ chainRuns conduct filters,
        order filter ≤ order item := fun item hitem =>
      hfirst item (reached_subset (mem_chainRuns.mp hitem)).1
    cases hconduct : conduct filter with
    | bypassed =>
      rw [chainRuns_bypassed hconduct, reached_bypassed hconduct]
      exact ih hsorted (hrest (by simp [hconduct, Conduct.halts]))
    | raises =>
      rw [chainRuns_raises hconduct, reached_raises hconduct]
      simp
    | runs calls =>
      rw [chainRuns_runs hconduct]
      match calls, hconduct with
      | 0, hconduct => simp [reached_halts hconduct]
      | 1, hconduct =>
        obtain ⟨hordered, hcount⟩ :=
          ih hsorted (hrest (by simp [hconduct, Conduct.halts]))
        rw [reached_runs hconduct]
        refine ⟨by simpa using ⟨hafter, hordered⟩, ?_⟩
        intro item hitem
        simp [count_cons, hcount item hitem]
      | calls + 2, hconduct =>
        have hsame := hrepeats (by simp [hconduct, Conduct.calls])
        rw [reached_runs hconduct]
        have hmem : ∀ item ∈ (List.replicate (calls + 2) (chainRuns conduct filters)).flatten,
            item ∈ chainRuns conduct filters := by
          simp
        constructor
        · refine pairwise_cons.mpr ⟨fun item hitem => hafter item (hmem item hitem), ?_⟩
          apply pairwise_of_forall_mem_list
          intro first hfirst second hsecond
          exact (hsame first (mem_chainRuns.mp (hmem _ hfirst))).2 second
            (mem_chainRuns.mp (hmem _ hsecond))
        · intro item hitem
          have hnone : item ∉ reached conduct filters :=
            fun hreached => (hsame item hreached).1 hitem
          have hruns : item ∉ (List.replicate (calls + 2)
              (chainRuns conduct filters)).flatten :=
            fun hrun => hnone (mem_chainRuns.mp (hmem item hrun))
          simp [count_cons, count_eq_zero_of_not_mem hnone, count_eq_zero_of_not_mem hruns]

theorem harmless_of_chainRuns [DecidableEq φ] (hordered : (chainRuns conduct filters).Pairwise
      fun first second => order first ≤ order second)
    (hcount : ∀ item, Counts item → (chainRuns conduct filters).count item ≤ 1) :
    RepeatsHarmless conduct order Counts filters := by
  induction filters with
  | nil =>
    intro front filter back hsplit
    simp at hsplit
  | cons filter filters ih =>
    rw [repeatsHarmless_cons]
    cases hconduct : conduct filter with
    | bypassed =>
      rw [chainRuns_bypassed hconduct] at hordered hcount
      exact ⟨by simp [Conduct.calls], fun _ => ih hordered hcount⟩
    | raises => exact ⟨by simp [Conduct.calls], by simp [Conduct.halts]⟩
    | runs calls =>
      rw [chainRuns_runs hconduct] at hordered hcount
      match calls, hconduct with
      | 0, hconduct =>
        exact ⟨by simp [Conduct.calls], by simp [Conduct.halts]⟩
      | calls + 1, hconduct =>
        rw [replicate_succ, flatten_cons] at hordered hcount
        have htail := (pairwise_cons.mp hordered).2
        have hrest : RepeatsHarmless conduct order Counts filters := by
          apply ih (pairwise_append.mp htail).1
          intro item hitem
          have hle := hcount item hitem
          rw [count_cons, count_append] at hle
          omega
        refine ⟨?_, fun _ => hrest⟩
        intro hcalls first hfirst
        have hcalls : ∃ more, calls = more + 1 :=
          Nat.exists_eq_succ_of_ne_zero (by
            simp only [Conduct.calls] at hcalls
            omega)
        obtain ⟨more, rfl⟩ := hcalls
        rw [replicate_succ, flatten_cons] at htail hcount
        constructor
        · intro hcounts
          have hle := hcount first hcounts
          have hpos := count_pos_iff.mpr (mem_chainRuns.mpr hfirst)
          rw [count_cons, count_append, count_append]
            at hle
          omega
        · intro second hsecond
          exact (pairwise_append.mp htail).2.2 first (mem_chainRuns.mpr hfirst) second
            (mem_append_left _ (mem_chainRuns.mpr hsecond))

theorem upToHalt_cases (conduct : φ → Conduct) (filters : List φ) :
    ((∀ filter ∈ filters, (conduct filter).halts = false) ∧
        upToHalt conduct filters = filters) ∨
      ∃ front filter back, filters = front ++ filter :: back ∧
        (∀ other ∈ front, (conduct other).halts = false) ∧ (conduct filter).halts = true ∧
            upToHalt conduct filters = front ++ [filter] := by
  induction filters with
  | nil => exact .inl ⟨by simp, rfl⟩
  | cons item filters ih =>
    cases hhalts : (conduct item).halts with
    | true =>
      exact .inr ⟨[], item, filters, rfl, by simp, hhalts,
        by simp [upToHalt, hhalts]⟩
    | false =>
      rcases ih with
        ⟨hall, heq⟩ | ⟨front, filter, back, rfl, hfront, hhalt, heq⟩
      · refine .inl ⟨?_, by simp [upToHalt, hhalts, heq]⟩
        simpa [hhalts] using hall
      · refine .inr ⟨item :: front, filter, back, rfl, ?_, hhalt,
          by simp [upToHalt, hhalts, heq]⟩
        simpa [hhalts] using hfront

theorem first_halt {front front' back back' : List φ} {filter filter' : φ}
    (hsplit : front ++ filter :: back = front' ++ filter' :: back')
    (hfront : ∀ other ∈ front, (conduct other).halts = false)
    (hhalts : (conduct filter').halts = true) :
    front ++ [filter] <+: front' ++ [filter'] ∧ filter' ∈ filter :: back := by
  induction front generalizing front' with
  | nil =>
    cases front' with
    | nil =>
      obtain ⟨rfl, -⟩ := List.cons.inj hsplit
      exact ⟨prefix_refl _, mem_cons_self⟩
    | cons item front' =>
      obtain ⟨rfl, hrest⟩ := List.cons.inj hsplit
      exact ⟨⟨front' ++ [filter'], rfl⟩, by simp [hrest]⟩
  | cons item front ih =>
    cases front' with
    | nil =>
      obtain ⟨rfl, -⟩ := List.cons.inj hsplit
      rw [hfront item mem_cons_self] at hhalts
      cases hhalts
    | cons item' front' =>
      obtain ⟨rfl, hrest⟩ := List.cons.inj hsplit
      obtain ⟨hstarts, hmem⟩ := ih hrest
        fun other hother => hfront other (mem_cons_of_mem _ hother)
      exact ⟨cons_prefix_cons.mpr ⟨rfl, hstarts⟩, hmem⟩

theorem reachedOnce_iff [DecidableEq φ] (hsorted : filters.Pairwise
      fun first second => order first ≤ order second) :
    ((upToHalt conduct filters).count item = 1 ∨
        (upToHalt conduct filters).count item = 0 ∧ ∃ filter ∈ upToHalt conduct filters,
            (conduct filter).halts = true ∧ order filter ≤ order item) ↔
      filters.count item = 1 ∨ CutShort conduct order filters item := by
  rcases upToHalt_cases conduct filters with
    ⟨hnone, heq⟩ | ⟨front, filter, back, hsplit, hfront, hhalt, heq⟩
  · rw [heq]
    apply or_congr_right
    constructor
    · rintro ⟨-, filter, hfilter, hhalts, -⟩
      simp [hnone filter hfilter] at hhalts
    · rintro ⟨front, filter, back, rfl, hhalts, -⟩
      simp [hnone filter (by simp)] at hhalts
  · rw [heq]
    have hback : ∀ other ∈ back, order filter ≤ order other := by
      rw [hsplit] at hsorted
      exact (pairwise_cons.mp (pairwise_append.mp hsorted).2.1).1
    have hfirst : ∀ other ∈ filter :: back, order filter ≤ order other := by
      intro other hother
      rcases mem_cons.mp hother with rfl | hother
      · exact le_rfl
      · exact hback other hother
    have hcounts : filters.count item = (front ++ [filter]).count item + back.count item := by
      rw [hsplit, ← count_append]
      simp
    constructor
    · rintro (hone | ⟨hzero, other, hother, hhalts, hle⟩)
      · by_cases hle : order filter ≤ order item
        · exact .inr ⟨front, filter, back, hsplit, hhalt, hle, by omega⟩
        · have hnot : item ∉ back := fun hmem => hle (hback item hmem)
          rw [hcounts, hone, count_eq_zero_of_not_mem hnot]
          exact .inl rfl
      · have hself : other = filter := by
          rcases mem_append.mp hother with hother | hother
          · simp [hfront other hother] at hhalts
          · simpa using hother
        rw [hself] at hle
        exact .inr ⟨front, filter, back, hsplit, hhalt, hle, by omega⟩
    · rintro (hone | ⟨front', filter', back', hsplit', hhalts, hle, hcount⟩)
      · by_cases hzero : (front ++ [filter]).count item = 0
        · have hpos : 0 < back.count item := by omega
          exact .inr ⟨hzero, filter, by simp, hhalt,
            hback item (count_pos_iff.mp hpos)⟩
        · exact .inl (by omega)
      · obtain ⟨hstarts, hmem⟩ :=
          first_halt (hsplit.symm.trans hsplit') hfront hhalts
        have hless := hstarts.sublist.count_le item
        by_cases hzero : (front ++ [filter]).count item = 0
        · exact .inr ⟨hzero, filter, by simp, hhalt,
            Int.le_trans (hfirst filter' hmem) hle⟩
        · exact .inl (by omega)

theorem chainRuns_without_bypassed [DecidableEq φ]
    (h : conduct filter = .bypassed) (filters : List φ) :
    filter ∉ chainRuns conduct filters ∧ chainRuns conduct (filters.filter (· ≠ filter)) =
        chainRuns conduct filters := by
  constructor
  · intro hmem
    have hrun := (reached_subset (mem_chainRuns.mp hmem)).2
    simp [h, Conduct.isRun] at hrun
  · induction filters with
    | nil => rfl
    | cons item filters ih =>
      by_cases hitem : item = filter
      · subst hitem
        simpa [chainRuns_bypassed h] using ih
      · rw [filter_cons_of_pos (by simpa using hitem), chainRuns_cons,
          chainRuns_cons, ih]

end PyFly.Web
