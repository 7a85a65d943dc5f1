import Mathlib.Data.Fin.VecNotation
import Mathlib.Data.Int.Order.Basic
import Mathlib.Data.List.FinRange
import Mathlib.Data.List.Induction
import Mathlib.Order.Fin.Basic
import PyFly.Library.InsertionDict
import PyFly.Library.StableSort

/-!
# Listeners of application events

Listeners are sorted by `@order` among those for the same event type, when they
are subscribed.  An event is published to all types which it is an instance of,
in the order in which these were first subscribed to.
-/

namespace PyFly.Context

open Library List

variable {τ ω ε χ L : Type}

/-! ## The bus -/

/-- `get_order`, on the attribute that `@order` sets. -/
def getOrder (declared : ω → Option ℤ) (cls : ω) : ℤ :=
  (declared cls).getD 0

abbrev Entry (ω L : Type) : Type := L × Option ω

/-- `get_order(e[1]) if e[1] else 0` -/
def entryOrder (declared : ω → Option ℤ) (entry : Entry ω L) : ℤ :=
  match entry.2 with
  | some cls => getOrder declared cls
  | none => 0

abbrev ApplicationEventBus (τ ω L : Type) : Type := Dict τ (List (Entry ω L))

namespace ApplicationEventBus

def entriesOf [DecidableEq τ] (bus : ApplicationEventBus τ ω L)
    (eventType : τ) : List (Entry ω L) :=
  (bus.get? eventType).getD []

def subscribe [DecidableEq τ] (declared : ω → Option ℤ)
    (bus : ApplicationEventBus τ ω L) (eventType : τ) (listener : L)
    (ownerCls : Option ω) : ApplicationEventBus τ ω L :=
  let entries := bus.entriesOf eventType
  bus.set eventType ((entries ++ [(listener, ownerCls)]).insertionSort
    fun first second => entryOrder declared first ≤ entryOrder declared second)

def notify (raises : L → Option χ) : List (Entry ω L) → List L × Option χ
  | [] => ([], none)
  | (listener, _) :: entries =>
    match raises listener with
    | some exc => ([listener], some exc)
    | none =>
      let rest := notify raises entries
      (listener :: rest.1, rest.2)

def publishTo (raises : L → Option χ) (accepts : τ → Bool) :
    List (τ × List (Entry ω L)) → List L × Option χ
  | [] => ([], none)
  | (eventType, entries) :: groups =>
    if accepts eventType then
      match notify raises entries with
      | (calls, some exc) => (calls, some exc)
      | (calls, none) =>
        let rest := publishTo raises accepts groups
        (calls ++ rest.1, rest.2)
    else publishTo raises accepts groups

def publish (isInstance : ε → τ → Bool) (raises : ε → L → Option χ)
    (bus : ApplicationEventBus τ ω L) (event : ε) : List L × Option χ :=
  publishTo (raises event) (isInstance event) bus.items

def subscribeAll [DecidableEq τ] (declared : ω → Option ℤ)
    (eventType : L → τ) (ownerCls : L → Option ω) (listeners : List L) :
    ApplicationEventBus τ ω L :=
  listeners.foldl (fun bus listener =>
    bus.subscribe declared (eventType listener) listener (ownerCls listener))
    Dict.empty

section Entries

variable [DecidableEq τ] {declared : ω → Option ℤ} {bus : ApplicationEventBus τ ω L}

theorem entriesOf_subscribe_self (listener : L) (type : τ) (owner : Option ω) :
    (bus.subscribe declared type listener owner).entriesOf type =
      (bus.entriesOf type ++ [(listener, owner)]).insertionSort fun first second =>
          entryOrder declared first ≤ entryOrder declared second := by
  unfold subscribe
  rw [entriesOf, Dict.get?_set_self, Option.getD_some]

theorem entriesOf_subscribe_of_ne (listener : L) {type other : τ}
    (hne : other ≠ type) (owner : Option ω) :
    (bus.subscribe declared type listener owner).entriesOf other = bus.entriesOf other := by
  unfold subscribe
  rw [entriesOf, Dict.get?_set_of_ne hne, entriesOf]

end Entries

/-! ## The calls of an event -/

def matching (accepts : τ → Bool) (groups : List (τ × List (Entry ω L))) : List (Entry ω L) :=
  (groups.filter fun group => accepts group.1).flatMap Prod.snd

theorem notify_append (raises : L → Option χ) (first second : List (Entry ω L)) :
    notify raises (first ++ second) = match notify raises first with
      | (calls, some exc) => (calls, some exc)
      | (calls, none) =>
        (calls ++ (notify raises second).1, (notify raises second).2) := by
  induction first with
  | nil => rfl
  | cons entry first ih =>
    obtain ⟨listener, owner⟩ := entry
    rw [cons_append, notify, notify]
    cases raises listener with
    | some exc => rfl
    | none =>
      dsimp only
      rw [ih]
      obtain ⟨calls, outcome⟩ := notify raises first
      cases outcome <;> rfl

theorem publishTo_eq_notify (raises : L → Option χ) (accepts : τ → Bool)
    (groups : List (τ × List (Entry ω L))) :
    publishTo raises accepts groups = notify raises (matching accepts groups) := by
  induction groups with
  | nil => rfl
  | cons group groups ih =>
    obtain ⟨eventType, entries⟩ := group
    rw [publishTo, matching, filter_cons]
    dsimp only
    split
    · rw [flatMap_cons, notify_append, ih]
      rfl
    · exact ih

theorem notify_isPrefix (raises : L → Option χ) (entries : List (Entry ω L)) :
    (notify raises entries).1 <+: entries.map Prod.fst := by
  induction entries with
  | nil => exact prefix_rfl
  | cons entry entries ih =>
    obtain ⟨listener, owner⟩ := entry
    rw [notify, map_cons]
    cases raises listener with
    | some exc => exact ⟨entries.map Prod.fst, rfl⟩
    | none => exact (prefix_cons_inj listener).mpr ih

theorem notify_eq_iff {raises : L → Option χ} {entries : List (Entry ω L)} :
    (notify raises entries).1 = entries.map Prod.fst ↔
      ∀ front listener back, entries.map Prod.fst = front ++ listener :: back →
        raises listener ≠ none → back = [] := by
  induction entries with
  | nil =>
    refine iff_of_true rfl ?_
    intro front listener back h
    exact absurd (append_eq_nil_iff.mp h.symm).2 (cons_ne_nil _ _)
  | cons entry entries ih =>
    obtain ⟨first, owner⟩ := entry
    rw [notify, map_cons]
    cases hraises : raises first with
    | some exc =>
      constructor
      · intro h front listener back hsplit _
        have hnil := (List.cons.inj h).2
        rw [← hnil] at hsplit
        have hlength := congrArg List.length hsplit
        simp only [length_append, length_cons, length_nil] at hlength
        exact eq_nil_of_length_eq_zero (by omega)
      · intro h
        have hnone : raises first ≠ none := by
          rw [hraises]
          exact Option.some_ne_none exc
        rw [h [] first _ rfl hnone]
    | none =>
      dsimp only
      rw [List.cons.injEq, and_iff_right rfl, ih]
      constructor
      · intro h front listener back hsplit hlistener
        cases front with
        | nil =>
          obtain ⟨rfl, -⟩ := List.cons.inj hsplit
          exact absurd hraises hlistener
        | cons other front =>
          exact h front listener back (List.cons.inj hsplit).2 hlistener
      · intro h front listener back hsplit hlistener
        exact h (first :: front) listener back (congrArg (first :: ·) hsplit) hlistener

section Grouping

variable [LinearOrder L]

def EntriesOrdered (declared : ω → Option ℤ) (entries : List (Entry ω L)) :
    Prop :=
  entries.Pairwise (StablyOrdered
    (fun first second =>
      entryOrder declared first ≤ entryOrder declared second)
    fun first second => first.1 < second.1)

def SubscribedBefore (eventType : L → τ) (listeners : List L) (type other : τ) : Prop :=
  ∃ first ∈ listeners, eventType first = type ∧
    ∀ listener ∈ listeners, eventType listener = other → first < listener

structure Grouped [DecidableEq τ] (declared : ω → Option ℤ)
    (eventType : L → τ) (ownerCls : L → Option ω) (listeners : List L)
    (bus : ApplicationEventBus τ ω L) : Prop where
  sorted : ∀ type, EntriesOrdered declared (bus.entriesOf type)
  entries : ∀ type entry, entry ∈ bus.entriesOf type ↔
    entry.1 ∈ listeners ∧ eventType entry.1 = type ∧ ownerCls entry.1 = entry.2
  keys : ∀ type, type ∈ bus.keys ↔ ∃ listener ∈ listeners, eventType listener = type
  ordered : bus.keys.Pairwise (SubscribedBefore eventType listeners)

variable {listener : L}

theorem EntriesOrdered.add {declared : ω → Option ℤ}
    {entries : List (Entry ω L)} (h : EntriesOrdered declared entries)
    (hlast : ∀ entry ∈ entries, entry.1 < listener) (ownerCls : Option ω) :
    EntriesOrdered declared ((entries ++ [(listener, ownerCls)]).insertionSort
      fun first second =>
        entryOrder declared first ≤ entryOrder declared second) := by
  have htotal : Std.Total fun first second : Entry ω L =>
      entryOrder declared first ≤ entryOrder declared second :=
    ⟨fun first second => le_total _ _⟩
  have htrans : IsTrans (Entry ω L) fun first second =>
      entryOrder declared first ≤ entryOrder declared second :=
    ⟨fun first second third => le_trans⟩
  apply pairwise_insertionSort_stable
  refine pairwise_append.mpr ⟨h.imp ?_, pairwise_singleton _ _, ?_⟩
  · intro first second hordered _ hback
    exact hordered.2 hback
  · intro entry hentry last hmem _ _
    obtain rfl := mem_singleton.mp hmem
    exact hlast entry hentry

theorem SubscribedBefore.append {eventType : L → τ} {listeners : List L}
    (hlast : ∀ earlier ∈ listeners, earlier < listener) {type other : τ}
    (h : SubscribedBefore eventType listeners type other) :
    SubscribedBefore eventType (listeners ++ [listener]) type other := by
  obtain ⟨first, hfirst, htype, hbefore⟩ := h
  refine ⟨first, mem_append_left _ hfirst, htype, ?_⟩
  intro found hfound hother
  rcases mem_append.mp hfound with hfound | hfound
  · exact hbefore found hfound hother
  · obtain rfl := mem_singleton.mp hfound
    exact hlast first hfirst

variable [DecidableEq τ] {declared : ω → Option ℤ} {eventType : L → τ}
  {ownerCls : L → Option ω} {listeners : List L}
  {bus : ApplicationEventBus τ ω L}

theorem grouped_empty : Grouped declared eventType ownerCls [] Dict.empty := by
  constructor
  · intro type
    exact List.Pairwise.nil
  · intro type entry
    exact iff_of_false not_mem_nil fun h => not_mem_nil h.1
  · intro type
    refine iff_of_false not_mem_nil ?_
    rintro ⟨listener, hlistener, -⟩
    exact not_mem_nil hlistener
  · exact List.Pairwise.nil

theorem Grouped.subscribe (h : Grouped declared eventType ownerCls listeners bus)
    (hlast : ∀ earlier ∈ listeners, earlier < listener) :
    Grouped declared eventType ownerCls (listeners ++ [listener])
      (bus.subscribe declared (eventType listener) listener (ownerCls listener)) := by
  constructor
  · intro type
    by_cases hsame : type = eventType listener
    · subst hsame
      rw [entriesOf_subscribe_self]
      apply (h.sorted _).add
      intro entry hentry
      exact hlast _ ((h.entries _ _).mp hentry).1
    · rw [entriesOf_subscribe_of_ne _ hsame]
      exact h.sorted type
  · intro type entry
    by_cases hsame : type = eventType listener
    · subst hsame
      rw [entriesOf_subscribe_self, mem_insertionSort, mem_append,
        mem_append, mem_singleton, mem_singleton, h.entries]
      constructor
      · rintro (⟨hmem, htype, howner⟩ | rfl)
        · exact ⟨.inl hmem, htype, howner⟩
        · exact ⟨.inr rfl, rfl, rfl⟩
      · rintro ⟨hmem | hmem, htype, howner⟩
        · exact .inl ⟨hmem, htype, howner⟩
        · obtain ⟨found, owner⟩ := entry
          obtain rfl := hmem
          exact .inr (Prod.ext rfl howner.symm)
    · rw [entriesOf_subscribe_of_ne _ hsame, h.entries, mem_append, mem_singleton]
      constructor
      · rintro ⟨hmem, htype, howner⟩
        exact ⟨.inl hmem, htype, howner⟩
      · rintro ⟨hmem | rfl, htype, howner⟩
        · exact ⟨hmem, htype, howner⟩
        · exact absurd htype.symm hsame
  · intro type
    unfold ApplicationEventBus.subscribe
    rw [Dict.mem_keys_set, h.keys]
    constructor
    · rintro (rfl | ⟨found, hfound, rfl⟩)
      · exact ⟨listener, mem_append_right _ mem_cons_self, rfl⟩
      · exact ⟨found, mem_append_left _ hfound, rfl⟩
    · rintro ⟨found, hfound, rfl⟩
      rcases mem_append.mp hfound with hfound | hfound
      · exact .inr ⟨found, hfound, rfl⟩
      · exact .inl (congrArg eventType (mem_singleton.mp hfound))
  · have hold := h.ordered.imp fun {_ _} before => before.append hlast
    unfold ApplicationEventBus.subscribe
    by_cases hkey : eventType listener ∈ bus.keys
    · rw [Dict.keys_set_of_mem hkey]
      exact hold
    · rw [Dict.keys_set_of_notMem hkey]
      refine pairwise_append.mpr ⟨hold, pairwise_singleton _ _, ?_⟩
      intro type htype new hnew
      obtain rfl := mem_singleton.mp hnew
      obtain ⟨first, hfirst, hfirstType⟩ := (h.keys type).mp htype
      refine ⟨first, mem_append_left _ hfirst, hfirstType, ?_⟩
      intro found hfound hsame
      rcases mem_append.mp hfound with hfound | hfound
      · exact absurd ((h.keys _).mpr ⟨found, hfound, hsame⟩) hkey
      · obtain rfl := mem_singleton.mp hfound
        exact hlast first hfirst

theorem grouped_subscribeAll (h : listeners.Pairwise (· < ·)) :
    Grouped declared eventType ownerCls listeners
      (subscribeAll declared eventType ownerCls listeners) := by
  induction listeners using List.reverseRecOn with
  | nil => exact grouped_empty
  | append_singleton listeners listener ih =>
    obtain ⟨hfront, -, hlast⟩ := pairwise_append.mp h
    rw [subscribeAll, foldl_append]
    exact (ih hfront).subscribe fun earlier hearlier =>
      hlast earlier hearlier listener (mem_singleton.mpr rfl)

/-! ## The order of the calls -/

/-- `get_order` for the class of a listener. -/
def listenerOrder (declared : ω → Option ℤ) (ownerCls : L → Option ω) (listener : L) : ℤ :=
  entryOrder declared (listener, ownerCls listener)

def Precedes (declared : ω → Option ℤ) (eventType : L → τ)
    (ownerCls : L → Option ω) (listeners : List L) (first second : L) : Prop :=
  SubscribedBefore eventType listeners (eventType first) (eventType second) ∨
    eventType first = eventType second ∧ StablyOrdered (fun one other =>
        listenerOrder declared ownerCls one ≤
          listenerOrder declared ownerCls other) (· < ·) first second

omit [DecidableEq τ] in
theorem Precedes.asymm {first second : L}
    (h : Precedes declared eventType ownerCls listeners first second) :
    ¬ Precedes declared eventType ownerCls listeners second first := by
  rcases h with ⟨one, hone, htype, hbefore⟩ | ⟨hsame, hle, hlt⟩
  · rintro (⟨other, hother, hotherType, hback⟩ | ⟨hsame, -⟩)
    · exact lt_asymm (hbefore other hother hotherType) (hback one hone htype)
    · exact lt_irrefl _ (hbefore one hone (htype.trans hsame.symm))
  · rintro (⟨other, hother, hotherType, hback⟩ | ⟨-, hge, hgt⟩)
    · exact lt_irrefl _ (hback other hother (hotherType.trans hsame.symm))
    · exact lt_asymm (hlt hge) (hgt hle)

theorem Grouped.of_mem_items (h : Grouped declared eventType ownerCls listeners bus)
    {group : τ × List (Entry ω L)} (hgroup : group ∈ bus.items) :
    EntriesOrdered declared group.2 ∧ ∀ entry ∈ group.2,
      entry.1 ∈ listeners ∧ eventType entry.1 = group.1 ∧ ownerCls entry.1 = entry.2 := by
  have hentries : bus.entriesOf group.1 = group.2 := by
    rw [entriesOf, Dict.get?_eq_some_iff.mpr hgroup, Option.getD_some]
  rw [← hentries]
  exact ⟨h.sorted _, fun entry hentry => (h.entries _ entry).mp hentry⟩

theorem Grouped.mem_matching
    (h : Grouped declared eventType ownerCls listeners bus) {accepts : τ → Bool} :
    listener ∈ (matching accepts bus.items).map Prod.fst ↔
      listener ∈ listeners ∧ accepts (eventType listener) = true := by
  rw [mem_map]
  constructor
  · rintro ⟨entry, hentry, rfl⟩
    obtain ⟨group, hgroup, hentry⟩ := mem_flatMap.mp hentry
    obtain ⟨hitem, haccepts⟩ := mem_filter.mp hgroup
    obtain ⟨hmem, htype, -⟩ := (h.of_mem_items hitem).2 entry hentry
    exact ⟨hmem, htype ▸ haccepts⟩
  · rintro ⟨hmem, haccepts⟩
    obtain ⟨entries, hentries⟩ := Dict.mem_keys_iff.mp ((h.keys _).mpr ⟨listener, hmem, rfl⟩)
    refine ⟨(listener, ownerCls listener), mem_flatMap.mpr
      ⟨_, mem_filter.mpr ⟨Dict.get?_eq_some_iff.mp hentries, haccepts⟩, ?_⟩, rfl⟩
    have hfound : (listener, ownerCls listener) ∈ bus.entriesOf (eventType listener) :=
      (h.entries _ _).mpr ⟨hmem, rfl, rfl⟩
    rwa [entriesOf, hentries, Option.getD_some] at hfound

theorem Grouped.pairwise_matching (h : Grouped declared eventType ownerCls listeners bus)
    (accepts : τ → Bool) :
    ((matching accepts bus.items).map Prod.fst).Pairwise
      (Precedes declared eventType ownerCls listeners) := by
  rw [pairwise_map, matching, pairwise_flatMap]
  constructor
  · intro group hgroup
    obtain ⟨hsorted, hentries⟩ := h.of_mem_items (mem_filter.mp hgroup).1
    have horder : ∀ entry ∈ group.2, listenerOrder declared ownerCls entry.1 =
          entryOrder declared entry := by
      intro entry hentry
      obtain ⟨-, -, howner⟩ := hentries entry hentry
      rw [listenerOrder, howner]
    refine hsorted.imp_of_mem ?_
    intro first second hfirst hsecond hordered
    refine .inr ⟨(hentries first hfirst).2.1.trans (hentries second hsecond).2.1.symm, ?_⟩
    rw [StablyOrdered, horder first hfirst, horder second hsecond]
    exact hordered
  · have hkeys := pairwise_map.mp h.ordered
    refine (hkeys.sublist filter_sublist).imp_of_mem ?_
    intro group other hgroup hother hbefore first hfirst second hsecond
    have hfirstType := (h.of_mem_items (mem_filter.mp hgroup).1).2 first hfirst
    have hsecondType := (h.of_mem_items (mem_filter.mp hother).1).2 second hsecond
    left
    rw [hfirstType.2.1, hsecondType.2.1]
    exact hbefore

end Grouping

section Publishing

variable {n : ℕ}

structure EachOnceInOrder (declared : ω → Option ℤ) (eventType : Fin n → τ)
    (ownerCls : Fin n → Option ω) (accepts : τ → Bool)
    (calls : List (Fin n)) : Prop where
  once : ∀ listener, calls.count listener = if accepts (eventType listener) then 1 else 0
  ordered : calls.Pairwise fun first second =>
    listenerOrder declared ownerCls first ≤ listenerOrder declared ownerCls second

structure SortedAcrossTypes (declared : ω → Option ℤ) (eventType : Fin n → τ)
    (ownerCls : Fin n → Option ω) (accepts : τ → Bool)
    (raises : Fin n → Option χ) : Prop where
  across : ∀ first second, accepts (eventType first) = true →
    accepts (eventType second) = true →
      SubscribedBefore eventType (List.finRange n) (eventType first) (eventType second) →
        listenerOrder declared ownerCls first ≤ listenerOrder declared ownerCls second
  returns : ∀ listener, accepts (eventType listener) = true →
    raises listener ≠ none → ∀ other, accepts (eventType other) = true → other ≠ listener →
        Precedes declared eventType ownerCls (List.finRange n) other listener

variable [DecidableEq τ] {declared : ω → Option ℤ} {eventType : Fin n → τ}
  {ownerCls : Fin n → Option ω} {accepts : τ → Bool}
  {raises : Fin n → Option χ}

def intended (declared : ω → Option ℤ) (eventType : Fin n → τ)
    (ownerCls : Fin n → Option ω) (accepts : τ → Bool) : List (Fin n) :=
  (matching accepts (subscribeAll declared eventType ownerCls
    (List.finRange n)).items).map Prod.fst

theorem grouped_finRange : Grouped declared eventType ownerCls (List.finRange n)
      (subscribeAll declared eventType ownerCls (List.finRange n)) :=
  grouped_subscribeAll (pairwise_lt_finRange n)

theorem mem_intended {listener : Fin n} :
    listener ∈ intended declared eventType ownerCls accepts ↔
      accepts (eventType listener) = true := by
  rw [intended, grouped_finRange.mem_matching]
  exact and_iff_right (mem_finRange listener)

theorem pairwise_intended : (intended declared eventType ownerCls accepts).Pairwise
      (Precedes declared eventType ownerCls (List.finRange n)) :=
  grouped_finRange.pairwise_matching accepts

theorem nodup_intended : (intended declared eventType ownerCls accepts).Nodup := by
  refine pairwise_intended.imp ?_
  rintro first second hbefore rfl
  exact hbefore.asymm hbefore

theorem count_intended (listener : Fin n) :
    (intended declared eventType ownerCls accepts).count listener =
      if accepts (eventType listener) then 1 else 0 := by
  rw [nodup_intended.count]
  exact if_congr mem_intended rfl rfl

theorem ordered_intended_iff :
    (intended declared eventType ownerCls accepts).Pairwise (fun first second =>
        listenerOrder declared ownerCls first ≤ listenerOrder declared ownerCls second) ↔
      ∀ first second, accepts (eventType first) = true → accepts (eventType second) = true →
          SubscribedBefore eventType (List.finRange n) (eventType first) (eventType second) →
            listenerOrder declared ownerCls first ≤ listenerOrder declared ownerCls second := by
  constructor
  · intro hordered first second hfirst hsecond hbefore
    have hprecedes : Precedes declared eventType ownerCls (List.finRange n)
        first second := .inl hbefore
    have hpairs : (intended declared eventType ownerCls accepts).Pairwise
        (Precedes declared eventType ownerCls (List.finRange n)) :=
      pairwise_intended
    have hmem : second ∈ intended declared eventType ownerCls accepts :=
      mem_intended.mpr hsecond
    have hsource : first ∈ intended declared eventType ownerCls accepts :=
      mem_intended.mpr hfirst
    obtain ⟨front, back, hsplit⟩ := append_of_mem hsource
    rw [hsplit] at hordered hpairs hmem
    rcases mem_append.mp hmem with hmem | hmem
    · have hback := (pairwise_append.mp hpairs).2.2 second hmem first mem_cons_self
      exact absurd hback hprecedes.asymm
    · rcases mem_cons.mp hmem with rfl | hmem
      · exact le_refl _
      · exact rel_of_pairwise_cons (pairwise_append.mp hordered).2.1 hmem
  · intro hacross
    refine pairwise_intended.imp_of_mem ?_
    intro first second hfirst hsecond hbefore
    rcases hbefore with hbefore | ⟨-, hle, -⟩
    · exact hacross first second (mem_intended.mp hfirst) (mem_intended.mp hsecond) hbefore
    · exact hle

theorem last_intended_iff :
    (∀ front listener back, intended declared eventType ownerCls accepts =
        front ++ listener :: back → raises listener ≠ none → back = []) ↔
      ∀ listener, accepts (eventType listener) = true →
        raises listener ≠ none → ∀ other, accepts (eventType other) = true →
          other ≠ listener → Precedes declared eventType ownerCls (List.finRange n) other
              listener := by
  have hpairs : (intended declared eventType ownerCls accepts).Pairwise
      (Precedes declared eventType ownerCls (List.finRange n)) :=
    pairwise_intended
  constructor
  · intro hlast listener hlistener hraises other hother hne
    have hmem : other ∈ intended declared eventType ownerCls accepts :=
      mem_intended.mpr hother
    have hsource : listener ∈ intended declared eventType ownerCls accepts :=
      mem_intended.mpr hlistener
    obtain ⟨front, back, hsplit⟩ := append_of_mem hsource
    obtain rfl := hlast front listener back hsplit hraises
    rw [hsplit] at hpairs hmem
    rcases mem_append.mp hmem with hmem | hmem
    · exact (pairwise_append.mp hpairs).2.2 other hmem listener (mem_singleton.mpr rfl)
    · exact absurd (mem_singleton.mp hmem) hne
  · intro hreturns front listener back hsplit hraises
    cases back with
    | nil => rfl
    | cons other back =>
      rw [hsplit] at hpairs
      have hbefore := rel_of_pairwise_cons (pairwise_append.mp hpairs).2.1 mem_cons_self
      have hlistener : listener ∈ intended declared eventType ownerCls accepts := by
        rw [hsplit]
        exact mem_append_right _ mem_cons_self
      have hother : other ∈ intended declared eventType ownerCls accepts := by
        rw [hsplit]
        exact mem_append_right _ (mem_cons_of_mem _ mem_cons_self)
      have hne : other ≠ listener := by
        rintro rfl
        exact hbefore.asymm hbefore
      exact absurd (hreturns listener (mem_intended.mp hlistener) hraises
        other (mem_intended.mp hother) hne) hbefore.asymm

theorem eq_intended_of_count {calls : List (Fin n)}
    (hcalls : calls <+: intended declared eventType ownerCls accepts)
    (hcount : ∀ listener, calls.count listener =
      if accepts (eventType listener) then 1 else 0) :
    calls = intended declared eventType ownerCls accepts := by
  apply hcalls.eq_of_length
  apply List.Perm.length_eq
  rw [perm_iff_count]
  intro listener
  rw [hcount, count_intended]

/-- An event reaches each of its listeners once and in their order just when
the types of the event were subscribed to in the order of their listeners. -/
theorem publish_eachOnceInOrder_iff (isInstance : ε → τ → Bool)
    (raises : ε → Fin n → Option χ) (event : ε) :
    EachOnceInOrder declared eventType ownerCls (isInstance event)
        (publish isInstance raises (subscribeAll declared eventType ownerCls
          (List.finRange n)) event).1 ↔
      SortedAcrossTypes declared eventType ownerCls (isInstance event) (raises event) := by
  have hpublish : (publish isInstance raises (subscribeAll declared eventType
      ownerCls (List.finRange n)) event) = notify (raises event) (matching (isInstance event)
          (subscribeAll declared eventType ownerCls (List.finRange n)).items) :=
    publishTo_eq_notify _ _ _
  rw [hpublish]
  constructor
  · rintro ⟨honce, hordered⟩
    have hall := eq_intended_of_count (notify_isPrefix _ _) honce
    rw [hall] at hordered
    exact ⟨ordered_intended_iff.mp hordered, last_intended_iff.mp (notify_eq_iff.mp hall)⟩
  · rintro ⟨hacross, hreturns⟩
    have hall := notify_eq_iff.mpr (last_intended_iff.mpr hreturns)
    rw [hall]
    exact ⟨count_intended, ordered_intended_iff.mpr hacross⟩

end Publishing

inductive EventClass
  | applicationEvent
  | contextRefreshedEvent
  | applicationReadyEvent
  | contextClosedEvent
  deriving DecidableEq

def EventClass.isInstance (event eventType : EventClass) : Bool :=
  eventType = .applicationEvent || event = eventType

/-- A listener for all events whose class has `@order(1)` is subscribed first,
and then one for `ContextRefreshedEvent` whose class has `@order(0)`. -/
theorem not_eachOnceInOrder_refreshed : ¬ ∀ (n : ℕ) (eventType : Fin n → EventClass)
      (ownerCls : Fin n → Option ℤ) (event : EventClass),
      EachOnceInOrder some eventType ownerCls event.isInstance
        (publish EventClass.isInstance (fun _ _ => (none : Option Empty))
          (subscribeAll some eventType ownerCls (List.finRange n))
          event).1 := by
  intro hall
  have hordered := (hall 2 ![.applicationEvent, .contextRefreshedEvent]
    ![some 1, some 0] .contextRefreshedEvent).ordered
  revert hordered
  decide +kernel

end ApplicationEventBus

end PyFly.Context
