import Mathlib.Data.List.Basic
import Mathlib.Data.List.Infix
import Mathlib.Data.List.TakeWhile
import Mathlib.Tactic.Common

/-!
# The rounds of a loop which may stop

A loop over a list runs a round for each item and may stop after one of them.
Its rounds are a prefix of the list which ends with the first item that stops
the loop, if there is one.
-/

namespace PyFly.Library

open List

variable {α β : Type*}

def takeThrough (stop : α → Bool) : List α → List α
  | [] => []
  | item :: rest => if stop item then [item] else item :: takeThrough stop rest

variable {stop : α → Bool}

@[simp] theorem takeThrough_nil : takeThrough stop [] = [] := rfl

variable {item : α}

theorem takeThrough_cons_of_stop (hstop : stop item = true) (rest : List α) :
    takeThrough stop (item :: rest) = [item] := by
  simp [takeThrough, hstop]

theorem takeThrough_cons_of_go (hgo : stop item = false) (rest : List α) :
    takeThrough stop (item :: rest) = item :: takeThrough stop rest := by
  simp [takeThrough, hgo]

theorem takeThrough_eq_append (items : List α) : takeThrough stop items =
      (items.takeWhile fun item => !stop item) ++ (items.find? stop).toList := by
  induction items with
  | nil => rfl
  | cons item rest ih =>
    cases hitem : stop item with
    | true => simp [takeThrough, hitem]
    | false => simp [takeThrough, hitem, ih]

theorem takeThrough_initial (items : List α) : takeThrough stop items <+: items := by
  induction items with
  | nil => exact prefix_refl []
  | cons item rest ih =>
    cases hitem : stop item with
    | true =>
      rw [takeThrough_cons_of_stop hitem]
      exact prefix_append [item] rest
    | false =>
      rw [takeThrough_cons_of_go hitem]
      exact (prefix_cons_inj item).mpr ih

variable {items : List α}

theorem mem_of_mem_takeThrough (h : item ∈ takeThrough stop items) : item ∈ items :=
  (takeThrough_initial items).subset h

theorem mem_takeThrough_iff : item ∈ takeThrough stop items ↔
      ∃ before after, items = before ++ item :: after ∧
        ∀ other ∈ before, stop other = false := by
  induction items with
  | nil => simp
  | cons first rest ih =>
    constructor
    · intro hmem
      cases hfirst : stop first with
      | true =>
        rw [takeThrough_cons_of_stop hfirst] at hmem
        rw [mem_singleton.mp hmem]
        exact ⟨[], rest, rfl, by simp⟩
      | false =>
        rw [takeThrough_cons_of_go hfirst] at hmem
        rcases mem_cons.mp hmem with hhead | htail
        · rw [hhead]
          exact ⟨[], rest, rfl, by simp⟩
        · obtain ⟨before, after, hrest, hgo⟩ := ih.mp htail
          refine ⟨first :: before, after, ?_, ?_⟩
          · rw [hrest]
            rfl
          · intro other hother
            rcases mem_cons.mp hother with hhead | htail
            · rw [hhead]
              exact hfirst
            · exact hgo other htail
    · intro h
      obtain ⟨before, after, hitems, hgo⟩ := h
      cases before with
      | nil =>
        cases hitems
        unfold takeThrough
        split <;> simp
      | cons head before =>
        cases hitems
        rw [takeThrough_cons_of_go (hgo first mem_cons_self)]
        apply mem_cons_of_mem
        rw [ih]
        exact ⟨before, after, rfl, fun other hother =>
          hgo other (mem_cons_of_mem _ hother)⟩

theorem filter_takeThrough {keep : α → Bool}
    (hkeep : ∀ item, stop item = true → keep item = true)
    (items : List α) :
    (takeThrough stop items).filter keep = takeThrough stop (items.filter keep) := by
  induction items with
  | nil => rfl
  | cons item rest ih =>
    cases hstop : stop item with
    | true =>
      rw [takeThrough_cons_of_stop hstop, filter_cons_of_pos (hkeep item hstop),
        filter_cons_of_pos (hkeep item hstop),
        takeThrough_cons_of_stop hstop]
      rfl
    | false =>
      rw [takeThrough_cons_of_go hstop]
      cases hitem : keep item with
      | true =>
        rw [filter_cons_of_pos hitem, filter_cons_of_pos hitem, ih,
          takeThrough_cons_of_go hstop]
      | false =>
        rw [filter_cons_of_neg (by simp [hitem]),
          filter_cons_of_neg (by simp [hitem]), ih]

theorem takeThrough_of_find?_none (hnone : items.find? stop = none) :
    takeThrough stop items = items := by
  rw [takeThrough_eq_append, hnone]
  have hgo : ∀ item ∈ items, (!stop item) = true := by
    intro item hmem
    simpa using List.find?_eq_none.mp hnone item hmem
  simp [takeWhile_eq_self_iff.mpr hgo]

theorem takeWhile_of_find?_none (hnone : items.find? stop = none) :
    (items.takeWhile fun item => !stop item) = items := by
  apply takeWhile_eq_self_iff.mpr
  intro item hmem
  simpa using List.find?_eq_none.mp hnone item hmem

theorem find?_eq_some_split (hfind : items.find? stop = some item) :
    ∃ after, items = (items.takeWhile fun item => !stop item) ++ item :: after := by
  induction items with
  | nil => cases hfind
  | cons first rest ih =>
    cases hfirst : stop first with
    | true =>
      have hsame : first = item := by
        simpa [List.find?_cons, hfirst] using hfind
      refine ⟨rest, ?_⟩
      simp [← hsame, hfirst]
    | false =>
      have hrest : rest.find? stop = some item := by
        simpa [List.find?_cons, hfirst] using hfind
      obtain ⟨after, hafter⟩ := ih hrest
      refine ⟨after, ?_⟩
      rw [takeWhile_cons_of_pos (by simp [hfirst]),
        cons_append, ← hafter]

theorem first_split_unique {property : α → Prop} {before before' : List α}
    {item' : α} {after after' : List α}
    (hsplit : before ++ item :: after = before' ++ item' :: after')
    (hbefore : ∀ other ∈ before, property other) (hitem : ¬ property item)
    (hbefore' : ∀ other ∈ before', property other)
    (hitem' : ¬ property item') :
    before = before' ∧ item = item' ∧ after = after' := by
  induction before generalizing before' with
  | nil =>
    cases before' with
    | nil =>
      obtain ⟨hsame, hafter⟩ := cons_eq_cons.mp hsplit
      exact ⟨rfl, hsame, hafter⟩
    | cons head rest =>
      obtain ⟨hsame, _⟩ := cons_eq_cons.mp hsplit
      rw [hsame] at hitem
      exact absurd (hbefore' head mem_cons_self) hitem
  | cons head rest ih =>
    cases before' with
    | nil =>
      obtain ⟨hsame, _⟩ := cons_eq_cons.mp hsplit
      rw [← hsame] at hitem'
      exact absurd (hbefore head mem_cons_self) hitem'
    | cons head' rest' =>
      obtain ⟨hsame, hrest⟩ := cons_eq_cons.mp hsplit
      obtain ⟨hbeforeSame, hothers⟩ := ih hrest
        (fun other hmem => hbefore other (mem_cons_of_mem _ hmem))
        (fun other hmem => hbefore' other (mem_cons_of_mem _ hmem))
      exact ⟨by rw [hsame, hbeforeSame], hothers⟩

/-! ## Two loops over the same items -/

def Precedes (items : List α) (first second : α) : Prop :=
  ∃ before after, items = before ++ first :: after ∧ second ∈ after

variable {first second : α}

theorem precedes_iff_sublist : Precedes items first second ↔ [first, second].Sublist items := by
  constructor
  · intro h
    obtain ⟨before, after, hitems, hmem⟩ := h
    rw [hitems]
    apply sublist_append_of_sublist_right
    exact (singleton_sublist.mpr hmem).cons_cons first
  · intro h
    obtain ⟨start, rest, hitems, hmem, hrest⟩ := cons_sublist_iff.mp h
    obtain ⟨before, middle, hstart⟩ := append_of_mem hmem
    refine ⟨before, middle ++ rest, ?_, ?_⟩
    · rw [hitems, hstart, append_assoc, cons_append]
    · exact mem_append_right middle (singleton_sublist.mp hrest)

theorem precedes_reverse :
    Precedes items.reverse first second ↔ Precedes items second first := by
  have hpair : [first, second] = [second, first].reverse := rfl
  rw [precedes_iff_sublist, precedes_iff_sublist, hpair, reverse_sublist]

theorem precedes_filter {keep : α → Bool} : Precedes (items.filter keep) first second ↔
      Precedes items first second ∧ keep first = true ∧ keep second = true := by
  rw [precedes_iff_sublist, precedes_iff_sublist]
  constructor
  · intro h
    have hkept : ∀ item ∈ [first, second], keep item = true :=
      fun item hmem => (mem_filter.mp (h.subset hmem)).2
    exact ⟨h.trans filter_sublist, hkept first (by simp),
      hkept second (by simp)⟩
  · intro h
    obtain ⟨hsublist, hfirst, hsecond⟩ := h
    have hkept := hsublist.filter keep
    rwa [filter_cons_of_pos hfirst, filter_cons_of_pos hsecond]
      at hkept
theorem precedes_cons_self {other : α} {rest : List α} (hnodup : (item :: rest).Nodup) :
    Precedes (item :: rest) item other ↔ other ∈ rest := by
  constructor
  · intro h
    obtain ⟨before, after, hsplit, hmem⟩ := h
    cases before with
    | nil =>
      obtain ⟨_, hrest⟩ := List.cons.inj hsplit
      rwa [hrest]
    | cons head before =>
      obtain ⟨_, hrest⟩ := List.cons.inj hsplit
      have hin : item ∈ rest := by
        rw [hrest]
        exact mem_append_right before mem_cons_self
      exact absurd hin (nodup_cons.mp hnodup).1
  · intro hmem
    exact ⟨[], rest, rfl, hmem⟩

theorem precedes_cons_of_ne {head other : α} {rest : List α} (hne : item ≠ head) :
    Precedes (head :: rest) item other ↔ Precedes rest item other := by
  constructor
  · intro h
    obtain ⟨before, after, hsplit, hmem⟩ := h
    cases before with
    | nil =>
      obtain ⟨hsame, _⟩ := List.cons.inj hsplit
      exact absurd hsame.symm hne
    | cons first before =>
      obtain ⟨_, hrest⟩ := List.cons.inj hsplit
      exact ⟨before, after, hrest, hmem⟩
  · intro h
    obtain ⟨before, after, hsplit, hmem⟩ := h
    refine ⟨head :: before, after, ?_, hmem⟩
    rw [hsplit]
    rfl

theorem eq_cons_of_precedes_all (hnodup : items.Nodup) (hmem : item ∈ items)
    (hall : ∀ other ∈ items, other ≠ item → Precedes items item other) :
    ∃ rest, items = item :: rest := by
  cases items with
  | nil => cases hmem
  | cons head rest =>
    by_cases hsame : head = item
    · exact ⟨rest, by rw [hsame]⟩
    · obtain ⟨before, after, hsplit, hin⟩ :=
        hall head mem_cons_self hsame
      cases before with
      | nil =>
        obtain ⟨hhead, _⟩ := List.cons.inj hsplit
        exact absurd hhead hsame
      | cons first before =>
        obtain ⟨_, hrest⟩ := List.cons.inj hsplit
        have hagain : head ∈ rest := by
          rw [hrest]
          exact mem_append_right before (mem_cons_of_mem item hin)
        exact absurd hagain (nodup_cons.mp hnodup).1

theorem takeThrough_eq_iff {stop cut : α → Bool} {others : List α}
    (hnodup : items.Nodup) (hothers : others.Nodup)
    (hsubset : ∀ item ∈ others, item ∈ items)
    (hcut : ∀ item, cut item = true → stop item = true) :
    takeThrough stop items = takeThrough cut others ↔
      ∀ item ∈ takeThrough stop items, item ∈ others ∧
        ∀ other ∈ others, Precedes items item other → Precedes others item other ∧
            (stop item = true → cut item = true) := by
  induction items generalizing others with
  | nil =>
    have hempty : others = [] :=
      eq_nil_iff_forall_not_mem.mpr fun item hmem => by
        cases hsubset item hmem
    rw [hempty]
    simp
  | cons first rest ih =>
    obtain ⟨hnotMem, hrest⟩ := nodup_cons.mp hnodup
    -- in both directions the first items are the same
    have hfirst : (first ∈ others ∧ ∀ other ∈ others,
        Precedes (first :: rest) first other → Precedes others first other) →
        ∃ more, others = first :: more := by
      intro h
      apply eq_cons_of_precedes_all hothers h.1
      intro other hother hne
      apply h.2 other hother
      rw [precedes_cons_self hnodup]
      exact (mem_cons.mp (hsubset other hother)).resolve_left hne
    have hhead : ∀ stopped, first :: stopped = takeThrough cut others →
        ∃ more, others = first :: more := by
      intro stopped hsame
      have hinitial := @takeThrough_initial _ cut others
      rw [← hsame] at hinitial
      obtain ⟨more, hmore⟩ := hinitial
      exact ⟨stopped ++ more, hmore.symm⟩
    cases hstop : stop first with
    | true =>
      rw [takeThrough_cons_of_stop hstop]
      constructor
      · intro hsame item hitem
        obtain ⟨more, hmore⟩ := hhead [] hsame
        rw [mem_singleton.mp hitem, hmore]
        rw [hmore] at hothers hsame
        refine ⟨mem_cons_self, ?_⟩
        intro other hother hprecedes
        rw [precedes_cons_self hnodup] at hprecedes
        have hne : other ≠ first := fun h => hnotMem (h ▸ hprecedes)
        have hin := (mem_cons.mp hother).resolve_left hne
        refine ⟨(precedes_cons_self hothers).mpr hin, fun _ => ?_⟩
        by_contra hgo
        rw [takeThrough_cons_of_go (by simpa using hgo)] at hsame
        obtain ⟨_, hnil⟩ := List.cons.inj hsame
        cases more with
        | nil => cases hin
        | cons next more =>
          unfold takeThrough at hnil
          split at hnil
          · cases hnil
          · cases hnil
      · intro h
        obtain ⟨hmem, hall⟩ := h first mem_cons_self
        obtain ⟨more, hmore⟩ := hfirst ⟨hmem, fun other hother hprecedes =>
            (hall other hother hprecedes).1⟩
        rw [hmore] at hall hsubset hothers ⊢
        cases more with
        | nil =>
          unfold takeThrough
          split
          · rfl
          · rfl
        | cons next more =>
          have hne : next ≠ first := by
            intro hsame
            apply (nodup_cons.mp hothers).1
            rw [hsame]
            exact mem_cons_self
          have hnext : next ∈ first :: next :: more :=
            mem_cons_of_mem first mem_cons_self
          have hlater : Precedes (first :: rest) first next := by
            rw [precedes_cons_self hnodup]
            exact (mem_cons.mp (hsubset next hnext)).resolve_left hne
          rw [takeThrough_cons_of_stop ((hall next hnext hlater).2 hstop)]
    | false =>
      have hgo : cut first = false := by
        by_contra h
        rw [hcut first (by simpa using h)] at hstop
        cases hstop
      rw [takeThrough_cons_of_go hstop]
      have hstep : ∀ more, others = first :: more →
          (takeThrough stop rest = takeThrough cut more ↔
            ∀ item ∈ takeThrough stop rest, item ∈ more ∧
              ∀ other ∈ more, Precedes rest item other → Precedes more item other ∧
                  (stop item = true → cut item = true)) := by
        intro more hmore
        rw [hmore] at hothers hsubset
        obtain ⟨hfresh, hmoreNodup⟩ := nodup_cons.mp hothers
        apply ih hrest hmoreNodup
        intro item hmem
        have hne : item ≠ first := fun h => hfresh (h ▸ hmem)
        exact (mem_cons.mp (hsubset item (mem_cons_of_mem _ hmem))).resolve_left hne
      constructor
      · intro hsame
        obtain ⟨more, hmore⟩ := hhead _ hsame
        have hrounds := (hstep more hmore).mp (by
          rw [hmore, takeThrough_cons_of_go hgo] at hsame
          exact (List.cons.inj hsame).2)
        rw [hmore] at hothers hsubset ⊢
        intro item hitem
        rcases mem_cons.mp hitem with hitemFirst | hlater
        · rw [hitemFirst]
          refine ⟨mem_cons_self, ?_⟩
          intro other hother hprecedes
          rw [precedes_cons_self hnodup] at hprecedes
          have hne : other ≠ first := fun h => hnotMem (h ▸ hprecedes)
          refine ⟨(precedes_cons_self hothers).mpr ((mem_cons.mp hother).resolve_left hne), ?_⟩
          intro hstopped
          rw [hstop] at hstopped
          cases hstopped
        · have hin := mem_of_mem_takeThrough hlater
          have hne : item ≠ first := fun h => hnotMem (h ▸ hin)
          obtain ⟨hitemMore, hall⟩ := hrounds item hlater
          refine ⟨mem_cons_of_mem _ hitemMore, ?_⟩
          intro other hother hprecedes
          rw [precedes_cons_of_ne hne] at hprecedes ⊢
          have hotherRest : other ∈ rest := by
            obtain ⟨before, after, hsplit, hafter⟩ := hprecedes
            rw [hsplit]
            exact mem_append_right before (mem_cons_of_mem item hafter)
          have hotherNe : other ≠ first :=
            fun h => hnotMem (h ▸ hotherRest)
          exact hall other ((mem_cons.mp hother).resolve_left hotherNe) hprecedes
      · intro h
        obtain ⟨hmem, hall⟩ := h first mem_cons_self
        obtain ⟨more, hmore⟩ := hfirst ⟨hmem, fun other hother hprecedes =>
            (hall other hother hprecedes).1⟩
        have hrounds := (hstep more hmore).mpr (by
          intro item hitem
          have hin := mem_of_mem_takeThrough hitem
          have hne : item ≠ first := fun hsame => hnotMem (hsame ▸ hin)
          obtain ⟨hitemMem, hitemAll⟩ :=
            h item (mem_cons_of_mem first hitem)
          rw [hmore] at hitemMem hitemAll
          refine ⟨(mem_cons.mp hitemMem).resolve_left hne, ?_⟩
          intro other hother hprecedes
          have hfound := hitemAll other (mem_cons_of_mem _ hother)
            ((precedes_cons_of_ne hne).mpr hprecedes)
          rwa [precedes_cons_of_ne hne] at hfound)
        rw [hmore, takeThrough_cons_of_go hgo, hrounds]

end PyFly.Library
