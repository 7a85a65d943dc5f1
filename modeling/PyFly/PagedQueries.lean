import Mathlib.Data.Rat.Floor
import PyFly.SqlRepository

/-!
# Following the pages of a query

The offset of a page, the number of pages and the test for a next page are
computed in three places.  Together they cut the rows of a query into pages
which are full but for the last one.
-/

namespace PyFly.Data

open Library List

/-! ## `Pageable` and `Page` -/

/-- `_UNPAGED_SENTINEL_SIZE`, which is `sys.maxsize`. -/
def unpagedSentinelSize : ℤ :=
  2 ^ 63 - 1

namespace Pageable

/-- A `Pageable` with its `__post_init__`. -/
def create (page size : ℤ) (sort : List (String × SortOrder)) : Except QueryError Pageable :=
  if size ≠ unpagedSentinelSize then
    if page < 1 then
      .error (.valueError s!"page must be >= 1, got {page}")
    else if size < 1 then
      .error (.valueError s!"size must be >= 1, got {size}")
    else .ok ⟨page, size, sort⟩
  else .ok ⟨page, size, sort⟩

def next (pageable : Pageable) : Except QueryError Pageable :=
  create (pageable.page + 1) pageable.size pageable.sort

end Pageable

namespace Page

variable {α : Type}

def totalPages (page : Page α) : ℤ :=
  if page.total = 0 then 0 else ⌈(page.total : ℚ) / page.size⌉

def hasNext (page : Page α) : Bool :=
  page.page < page.totalPages

def hasPrevious (page : Page α) : Bool :=
  1 < page.page

end Page

variable {α : Type}

/-- The pages which are read from a `Pageable` on, each time with the next one
while there is one. -/
def followNext (findPage : Pageable → Except QueryError (Page α)) :
    ℕ → Pageable → Except QueryError (Option (List (Page α)))
  | 0, _ => .ok none
  | fuel + 1, pageable => do
      let page ← findPage pageable
      if page.hasNext then
        let nextPageable ← pageable.next
        let pages ← followNext findPage fuel nextPageable
        return pages.map (page :: ·)
      else
        return some [page]

/-! ## The pages of a list -/

/-- The page of a list of rows behind the first `k` pages. -/
def pageAt (results : List α) (size k : ℕ) : Page α where
  items := (results.drop (k * size)).take size
  total := results.length
  page := k + 1
  size := size

/-- What is read from the page behind the first `k` pages on. -/
structure PagesFrom (results : List α) (size k : ℕ)
    (pages : List (Page α)) : Prop where
  items : (pages.map (·.items)).flatten = results.drop (k * size)
  numbered : ∀ (i : ℕ) (page : Page α), pages[i]? = some page → page.page = k + i + 1
  last : ∃ last, pages.getLast? = some last ∧ (last.page = last.totalPages ∨
      results = [] ∧ last.page = 1 ∧ last.items = [])
  full : ∀ page ∈ pages.dropLast, page.items.length = size

section

variable {results : List α} {size k : ℕ}

theorem totalPages_eq_ceil (results : List α) (size k : ℕ) :
    (pageAt results size k).totalPages = if results.length = 0 then 0
      else ⌈(results.length : ℚ) / (size : ℤ)⌉ :=
  rfl

theorem hasNext_pageAt (hsize : 1 ≤ size) : (pageAt results size k).hasNext ↔
      (k + 1) * size < results.length := by
  have hpos : (0 : ℚ) < (size : ℤ) := by exact_mod_cast hsize
  rw [Page.hasNext, decide_eq_true_eq, totalPages_eq_ceil, pageAt]
  dsimp only
  split
  · next hzero =>
      rw [hzero]
      constructor
      · intro h
        omega
      · intro h
        exact absurd h (Nat.not_lt_zero _)
  · rw [Int.lt_ceil, lt_div_iff₀ hpos]
    exact_mod_cast Iff.rfl

theorem totalPages_pageAt (hsize : 1 ≤ size) (hfirst : k * size < results.length)
    (hlast : results.length ≤ (k + 1) * size) :
    (pageAt results size k).totalPages = k + 1 := by
  have hpos : (0 : ℚ) < (size : ℤ) := by exact_mod_cast hsize
  have hzero : results.length ≠ 0 := Nat.ne_zero_of_lt hfirst
  rw [totalPages_eq_ceil, if_neg hzero, Int.ceil_eq_iff]
  constructor
  · rw [lt_div_iff₀ hpos]
    push_cast
    rw [add_sub_cancel_right]
    exact_mod_cast hfirst
  · rw [div_le_iff₀ hpos]
    exact_mod_cast hlast

theorem pagesFrom_last (hsize : 1 ≤ size) (hfirst : k = 0 ∨ k * size < results.length)
    (hlast : results.length ≤ (k + 1) * size) :
    PagesFrom results size k [pageAt results size k] where
  items := by
    rw [map_singleton, flatten_singleton]
    apply take_of_length_le
    rw [length_drop]
    rw [Nat.add_mul, Nat.one_mul] at hlast
    omega
  numbered := by
    intro i page hpage
    rw [List.getElem?_singleton] at hpage
    split at hpage
    · next hi =>
        obtain rfl := Option.some.inj hpage
        simp [pageAt, hi]
    · exact absurd hpage.symm (Option.some_ne_none _)
  last := by
    refine ⟨_, List.getLast?_singleton, ?_⟩
    by_cases hrows : k * size < results.length
    · exact .inl (totalPages_pageAt hsize hrows hlast).symm
    · obtain rfl := hfirst.resolve_right hrows
      have hnil : results = [] := by
        rw [Nat.zero_mul, Nat.not_lt, Nat.le_zero] at hrows
        exact length_eq_zero_iff.mp hrows
      subst hnil
      exact .inr ⟨rfl, rfl, by simp [pageAt]⟩
  full := by
    intro page hpage
    exact absurd hpage not_mem_nil

theorem PagesFrom.cons {pages : List (Page α)} (hnext : (k + 1) * size < results.length)
    (hpages : PagesFrom results size (k + 1) pages) :
    PagesFrom results size k (pageAt results size k :: pages) := by
  obtain ⟨last, hlast, hends⟩ := hpages.last
  have hne : pages ≠ [] := by
    rintro rfl
    exact absurd hlast.symm (Option.some_ne_none _)
  refine ⟨?_, ?_, ⟨last, ?_, hends⟩, ?_⟩
  · rw [map_cons, flatten_cons, hpages.items, pageAt, Nat.add_mul, Nat.one_mul, ← drop_drop]
    exact take_append_drop _ _
  · intro i page hpage
    cases i with
    | zero =>
      obtain rfl := Option.some.inj hpage
      simp [pageAt]
    | succ i =>
      rw [List.getElem?_cons_succ] at hpage
      have hnumber := hpages.numbered i page hpage
      push_cast at hnumber ⊢
      omega
  · rw [List.getLast?_cons, hlast, Option.getD_some]
  · intro page hpage
    rw [dropLast_cons_of_ne_nil hne] at hpage
    rcases mem_cons.mp hpage with rfl | hpage
    · rw [pageAt, length_take, length_drop]
      rw [Nat.add_mul, Nat.one_mul] at hnext
      omega
    · exact hpages.full page hpage

theorem next_pageable (hsize : 1 ≤ size) (sort : List (String × SortOrder)) :
    Pageable.next ⟨k + 1, size, sort⟩ = .ok ⟨(k + 1 : ℕ) + 1, size, sort⟩ := by
  unfold Pageable.next Pageable.create
  dsimp only
  split
  · rw [if_neg (by omega), if_neg (by omega)]
    push_cast
    rfl
  · push_cast
    rfl

theorem followNext_pageAt (findPage : Pageable → Except QueryError (Page α))
    {sort : List (String × SortOrder)} (hsize : 1 ≤ size)
    (hfind : ∀ k : ℕ, findPage ⟨k + 1, size, sort⟩ = .ok (pageAt results size k)) :
    ∀ fuel k : ℕ, (k = 0 ∨ k * size < results.length) → results.length - k * size < fuel →
      ∃ pages, followNext findPage fuel ⟨k + 1, size, sort⟩ = .ok (some pages) ∧
        PagesFrom results size k pages := by
  intro fuel
  induction fuel with
  | zero =>
    intro k _ hfuel
    exact absurd hfuel (Nat.not_lt_zero _)
  | succ fuel ih =>
    intro k hfirst hfuel
    by_cases hnext : (pageAt results size k).hasNext
    · have hrows := (hasNext_pageAt hsize).mp hnext
      have hless : results.length - (k + 1) * size < fuel := by
        rw [Nat.add_mul, Nat.one_mul] at hrows ⊢
        omega
      obtain ⟨pages, hfollow, hpages⟩ := ih (k + 1) (.inr hrows) hless
      refine ⟨pageAt results size k :: pages, ?_, hpages.cons hrows⟩
      rw [followNext, hfind k]
      change (if (pageAt results size k).hasNext then _ else _) = _
      rw [if_pos hnext, next_pageable hsize sort]
      change (followNext findPage fuel _ >>= _) = _
      rw [hfollow]
      rfl
    · have hrows := mt (hasNext_pageAt hsize).mpr hnext
      refine ⟨[pageAt results size k], ?_, pagesFrom_last hsize hfirst (Nat.not_lt.mp hrows)⟩
      rw [followNext, hfind k]
      change (if (pageAt results size k).hasNext then _ else _) = _
      rw [if_neg hnext]
      rfl

end

variable {ι V : Type}

/-! ## The pages of a query -/

variable [Scalar V]

theorem Table.nodup_select (table : Table ι V)
    (statement : Select (Comparison V)) : (table.select statement).Nodup :=
  List.Nodup.filter _ (List.Nodup.of_map _ table.distinct)

theorem findAllBySpecPaged_eq {spec : Specification (Comparison V)}
    {filtered : Select (Comparison V)}
    (hspec : spec.toPredicate ⟨none⟩ = .ok filtered)
    (database : RowOrder ι V) (sort : List (String × SortOrder))
    (table : Table ι V) (size k : ℕ) :
    Repository.findAllBySpecPaged database spec ⟨k + 1, size, sort⟩ table =
      .ok (pageAt (database.orderBy sort (table.select filtered)) size k) := by
  have hlength := (database.orderBy_perm sort (table.select filtered)).length_eq
  have hoffset : ((k : ℤ) + 1 - 1) * size = (k * size : ℕ) := by
    push_cast
    ring
  rw [Repository.findAllBySpecPaged, hspec, pageAt, hlength]
  dsimp only [Pageable.offset]
  rw [hoffset]
  rfl

/-- Following the pages of a specification from the first one on: each
matching row is on one page, in the order of the database. -/
theorem followNext_findAllBySpecPaged {spec : Specification (Comparison V)}
    {filtered : Select (Comparison V)}
    (hspec : spec.toPredicate ⟨none⟩ = .ok filtered)
    (database : RowOrder ι V) (table : Table ι V) (pageable : Pageable)
    (hpage : pageable.page = 1) (hsize : 1 ≤ pageable.size) (fuel : ℕ)
    (hfuel : (table.select filtered).length < fuel) :
    ∃ pages : List (Page (Record ι V)), followNext
          (fun pageable =>
            Repository.findAllBySpecPaged database spec pageable table)
          fuel pageable = .ok (some pages) ∧
      (pages.map (·.items)).flatten = database.orderBy pageable.sort (table.select filtered) ∧
      (pages.map (·.items)).flatten.Perm (table.select filtered) ∧
      (pages.map (·.items)).flatten.Nodup ∧
      (∃ last, pages.getLast? = some last ∧ (last.page = last.totalPages ∨
          table.select filtered = [] ∧ last.page = 1 ∧ last.items = [])) ∧
      (∀ i page, pages[i]? = some page → (page.hasPrevious = false ↔ i = 0)) ∧
      ∀ page ∈ pages.dropLast, (page.items.length : ℤ) = pageable.size := by
  obtain ⟨page, size, sort⟩ := pageable
  obtain rfl : page = 1 := hpage
  obtain ⟨size, rfl⟩ := Int.eq_ofNat_of_zero_le (Int.le_trans Int.one_nonneg hsize)
  have hperm := database.orderBy_perm sort (table.select filtered)
  have hless : (database.orderBy sort (table.select filtered)).length - 0 * size < fuel := by
    rw [hperm.length_eq]
    exact Nat.lt_of_le_of_lt (Nat.sub_le _ _) hfuel
  obtain ⟨pages, hfollow, hpages⟩ := followNext_pageAt
    (fun pageable =>
      Repository.findAllBySpecPaged database spec pageable table)
    (Int.ofNat_le.mp hsize)
    (findAllBySpecPaged_eq hspec database sort table size)
    fuel 0 (.inl rfl) hless
  have hitems : (pages.map (·.items)).flatten =
      database.orderBy sort (table.select filtered) := by
    rw [hpages.items, Nat.zero_mul, drop_zero]
  refine ⟨pages, hfollow, hitems, hitems ▸ hperm,
    hitems ▸ hperm.nodup_iff.mpr (table.nodup_select filtered), ?_, ?_, ?_⟩
  · obtain ⟨last, hlast, hends | ⟨hnil, hends⟩⟩ := hpages.last
    · exact ⟨last, hlast, .inl hends⟩
    · rw [hnil] at hperm
      exact ⟨last, hlast, .inr ⟨hperm.nil_eq.symm, hends⟩⟩
  · intro i page hpage
    rw [Page.hasPrevious, hpages.numbered i page hpage, decide_eq_false_iff_not]
    omega
  · intro page hpage
    exact congrArg _ (hpages.full page hpage)

theorem noop_toPredicate :
    (Specification.noop : Specification (Comparison ℤ)).toPredicate ⟨none⟩ = .ok ⟨none⟩ :=
  rfl

def storedOrder : RowOrder ℕ ℤ :=
  ⟨fun _ rows => rows, fun _ rows => .refl rows⟩

def threeRows : Table ℕ ℤ where
  rows := [⟨1, fun _ => none⟩, ⟨2, fun _ => none⟩, ⟨3, fun _ => none⟩]
  distinct := by decide

theorem followNext_threeRows : ∃ pages : List (Page (Record ℕ ℤ)), followNext
          (fun pageable => Repository.findAllBySpecPaged storedOrder
            Specification.noop pageable threeRows)
          4 ⟨1, 2, []⟩ = .ok (some pages) ∧
      (pages.map (·.items)).flatten = threeRows.rows := by
  obtain ⟨pages, hfollow, hitems, -⟩ := followNext_findAllBySpecPaged
    noop_toPredicate storedOrder threeRows ⟨1, 2, []⟩ rfl (by decide) 4
    (by decide)
  exact ⟨pages, hfollow, hitems⟩

def noRows : Table ℕ ℤ where
  rows := []
  distinct := nodup_nil

/-- Without a matching row there is no page with the number of pages. -/
theorem not_last_totalPages : ¬ ∀ (table : Table ℕ ℤ) (pageable : Pageable), pageable.page = 1 →
      1 ≤ pageable.size → ∀ fuel pages,
      followNext
          (fun pageable => Repository.findAllBySpecPaged storedOrder
            Specification.noop pageable table)
          fuel pageable = .ok (some pages) →
      ∀ last, pages.getLast? = some last → last.page = last.totalPages := by
  intro h
  have hlast := h noRows ⟨1, 20, []⟩ rfl (by decide) 1
    [⟨[], 0, 1, 20⟩] rfl _ rfl
  exact absurd hlast (by decide)

end PyFly.Data
