import PyFly.Library.RoundRobin
import Mathlib.Logic.Function.Basic

/-!
# The broker in memory

A publication reads the subscriptions of its topic in one critical section and
draws from the iterators of the groups in others.  A subscription drops the
iterator of its group.
-/

namespace PyFly.Messaging

open Library List

structure Message where
  topic : List Char
  value : List UInt8
  key : Option (List UInt8) := none
  headers : List (List Char × List Char) := []
  deriving DecidableEq

structure Subscription (η : Type) where
  handler : η
  group : Option (List Char)
  deriving DecidableEq

structure Member (η : Type) where
  place : ℕ
  handler : η
  deriving DecidableEq

structure InMemoryMessageBroker (η : Type) where
  subscriptions : List Char → List (Subscription η) := fun _ => []
  groupIterators : List Char × List Char → Option (CycleIterator (Member η)) := fun _ => none
  running : Bool := false

variable {η : Type}

/-- `[h for h, g in subs if g == group]` -/
def groupHandlers (subs : List (Subscription η)) (group : List Char) : List (Member η) :=
  subs.zipIdx.filterMap fun entry =>
    if entry.1.group = some group then some ⟨entry.2, entry.1.handler⟩
    else none

namespace InMemoryMessageBroker

variable (broker : InMemoryMessageBroker η)

def subscribe (topic : List Char) (handler : η) (group : Option (List Char)) :
    InMemoryMessageBroker η :=
  { broker with
    subscriptions := Function.update broker.subscriptions topic
      (broker.subscriptions topic ++ [⟨handler, group⟩])
    groupIterators := match group with
      | none => broker.groupIterators
      | some group =>
        Function.update broker.groupIterators (topic, group) none }

def iterator (topic : List Char) (subs : List (Subscription η))
    (group : List Char) : CycleIterator (Member η) :=
  (broker.groupIterators (topic, group)).getD { items := groupHandlers subs group }

/-- The critical section of `publish` which draws from a group. -/
def select (topic : List Char) (subs : List (Subscription η))
    (group : List Char) : Option (Member η × InMemoryMessageBroker η) :=
  (broker.iterator topic subs group).next.map fun drawn =>
    (drawn.1, { broker with
      groupIterators := Function.update broker.groupIterators (topic, group)
        (some drawn.2) })

/-- The loop of `publish` with the handlers which it calls, up to the first
that raises. -/
def deliver (raises : η → Bool) (topic : List Char) (subs : List (Subscription η)) :
    List (Subscription η) → List (List Char) → InMemoryMessageBroker η →
      List η × InMemoryMessageBroker η
  | [], _, broker => ([], broker)
  | sub :: rest, deliveredGroups, broker =>
    match sub.group with
    | none =>
      if raises sub.handler then ([sub.handler], broker)
      else
        let called := deliver raises topic subs rest deliveredGroups broker
        (sub.handler :: called.1, called.2)
    | some group =>
      if deliveredGroups.contains group then
        deliver raises topic subs rest deliveredGroups broker
      else
        match broker.select topic subs group with
        | none => ([], broker)
        | some (member, broker) =>
          if raises member.handler then ([member.handler], broker)
          else
            let called := deliver raises topic subs rest
              (group :: deliveredGroups) broker
            (member.handler :: called.1, called.2)

/-- A publication which nothing else interleaves with. -/
def publish (raises : η → Bool) (topic : List Char) : List η × InMemoryMessageBroker η :=
  if broker.running then
    let subs := broker.subscriptions topic
    deliver raises topic subs subs [] broker
  else ([], broker)

theorem subscriptions_subscribe (topic : List Char) (handler : η) (group : Option (List Char)) :
    (broker.subscribe topic handler group).subscriptions =
      Function.update broker.subscriptions topic
        (broker.subscriptions topic ++ [⟨handler, group⟩]) := rfl

end InMemoryMessageBroker

/-! ## The handlers of a group -/

theorem groupHandlers_concat (subs : List (Subscription η))
    (sub : Subscription η) (group : List Char) :
    groupHandlers (subs ++ [sub]) group = groupHandlers subs group ++
      if sub.group = some group then [⟨subs.length, sub.handler⟩] else [] := by
  rw [groupHandlers, zipIdx_append, filterMap_append]
  congr 1
  by_cases hgroup : sub.group = some group
  · simp [hgroup]
  · simp [hgroup]

theorem groupHandlers_initial {subs later : List (Subscription η)}
    (hinitial : subs <+: later) (group : List Char) :
    groupHandlers subs group <+: groupHandlers later group := by
  obtain ⟨rest, rfl⟩ := hinitial
  rw [groupHandlers, groupHandlers, zipIdx_append, filterMap_append]
  exact prefix_append _ _

theorem nodup_groupHandlers (subs : List (Subscription η))
    (group : List Char) : (groupHandlers subs group).Nodup := by
  have hplaces : ∀ start, ((subs.zipIdx start).filterMap fun entry =>
      if entry.1.group = some group then
        some (⟨entry.2, entry.1.handler⟩ : Member η)
      else none).Nodup ∧
      ∀ member ∈ (subs.zipIdx start).filterMap fun entry =>
        if entry.1.group = some group then
          some (⟨entry.2, entry.1.handler⟩ : Member η)
        else none, start ≤ member.place := by
    intro start
    induction subs generalizing start with
    | nil => simp
    | cons sub subs ih =>
      obtain ⟨hnodup, hle⟩ := ih (start + 1)
      by_cases hgroup : sub.group = some group
      · simp only [zipIdx_cons, filterMap_cons, hgroup, if_true, nodup_cons, forall_mem_cons]
        refine ⟨⟨fun hmem => ?_, hnodup⟩, Nat.le_refl _, fun member hmem =>
          Nat.le_of_succ_le (hle member hmem)⟩
        exact absurd (hle _ hmem) (Nat.not_succ_le_self start)
      · simp only [zipIdx_cons, filterMap_cons, hgroup, if_false]
        exact ⟨hnodup, fun member hmem =>
          Nat.le_of_succ_le (hle member hmem)⟩
  exact (hplaces 0).1

theorem groupHandlers_ne_nil {subs : List (Subscription η)}
    {sub : Subscription η} (hsub : sub ∈ subs) {group : List Char}
    (hgroup : sub.group = some group) : groupHandlers subs group ≠ [] := by
  obtain ⟨place, hplace⟩ := mem_iff_getElem?.mp hsub
  intro hnil
  have hnone := filterMap_eq_nil_iff.mp hnil (sub, place)
    (mk_mem_zipIdx_iff_getElem?.mpr hplace)
  simp [hgroup] at hnone

/-! ## Whom a message is due to -/

def due : List (Subscription η) → List (List Char) → List (Subscription η)
  | [], _ => []
  | sub :: rest, deliveredGroups =>
    match sub.group with
    | none => sub :: due rest deliveredGroups
    | some group =>
      if deliveredGroups.contains group then due rest deliveredGroups
      else sub :: due rest (group :: deliveredGroups)

def Serves (subs : List (Subscription η)) (sub : Subscription η) (handler : η) : Prop :=
  match sub.group with
  | none => handler = sub.handler
  | some group => ∃ member ∈ groupHandlers subs group, handler = member.handler

def Stocked (broker : InMemoryMessageBroker η) (topic : List Char)
    (subs : List (Subscription η)) : Prop :=
  ∀ group iterator, broker.groupIterators (topic, group) = some iterator →
    iterator.items ≠ [] ∧ iterator.items ⊆ groupHandlers subs group

theorem InMemoryMessageBroker.select_eq_some
    {broker after : InMemoryMessageBroker η} {topic group : List Char}
    {subs : List (Subscription η)} {member : Member η}
    (hselect : broker.select topic subs group = some (member, after)) :
    let iterator := broker.iterator topic subs group
    iterator.items[iterator.taken % iterator.items.length]? = some member ∧
      after = { broker with
        groupIterators := Function.update broker.groupIterators (topic, group)
          (some { iterator with taken := iterator.taken + 1 }) } := by
  obtain ⟨⟨drawn, following⟩, hnext, heq⟩ := Option.map_eq_some_iff.mp hselect
  cases heq
  obtain ⟨hitem, rfl⟩ := CycleIterator.next_eq_some hnext
  exact ⟨hitem, rfl⟩

section Stocked

variable {broker : InMemoryMessageBroker η} {topic : List Char}
  {subs : List (Subscription η)}

theorem Stocked.iterator (hbroker : Stocked broker topic subs)
    {sub : Subscription η} (hsub : sub ∈ subs) {group : List Char}
    (hgroup : sub.group = some group) :
    (broker.iterator topic subs group).items ≠ [] ∧
      (broker.iterator topic subs group).items ⊆ groupHandlers subs group := by
  unfold InMemoryMessageBroker.iterator
  cases hiterator : broker.groupIterators (topic, group) with
  | none => exact ⟨groupHandlers_ne_nil hsub hgroup, List.Subset.refl _⟩
  | some iterator => exact hbroker group iterator hiterator

theorem Stocked.exists_select (hbroker : Stocked broker topic subs)
    {sub : Subscription η} (hsub : sub ∈ subs) {group : List Char}
    (hgroup : sub.group = some group) :
    ∃ member after, broker.select topic subs group = some (member, after) ∧
      member ∈ groupHandlers subs group ∧ Stocked after topic subs ∧
        after.subscriptions = broker.subscriptions ∧ after.running = broker.running ∧
            ∀ other name, other ≠ topic → after.groupIterators (other, name) =
              broker.groupIterators (other, name) := by
  obtain ⟨hitems, hsubset⟩ := hbroker.iterator hsub hgroup
  obtain ⟨member, hmember⟩ := CycleIterator.exists_item hitems
    (broker.iterator topic subs group).taken
  have hselect : broker.select topic subs group = some (member, { broker with
      groupIterators := Function.update broker.groupIterators (topic, group)
        (some { broker.iterator topic subs group with
          taken := (broker.iterator topic subs group).taken + 1 }) }) := by
    rw [InMemoryMessageBroker.select, CycleIterator.next, hmember]
    rfl
  refine ⟨member, _, hselect, hsubset (mem_of_getElem? hmember), ?_, rfl, rfl, ?_⟩
  · intro other iterator hiterator
    dsimp only at hiterator
    by_cases hother : other = group
    · subst hother
      rw [Function.update_self] at hiterator
      rw [← Option.some.inj hiterator]
      exact ⟨hitems, hsubset⟩
    · have hne : (topic, other) ≠ (topic, group) := by
        rintro heq
        exact hother (Prod.mk.inj heq).2
      rw [Function.update_of_ne hne] at hiterator
      exact hbroker other iterator hiterator
  · intro other name hother
    have hne : (other, name) ≠ (topic, group) := by
      rintro heq
      exact hother (Prod.mk.inj heq).1
    exact Function.update_of_ne hne _ _

end Stocked

def RaisesLast (raises : η → Bool) (topic : List Char) (subs : List (Subscription η)) :
    List (Subscription η) → List (List Char) → InMemoryMessageBroker η → Prop
  | [], _, _ => True
  | sub :: rest, deliveredGroups, broker =>
    match sub.group with
    | none =>
      if raises sub.handler then due rest deliveredGroups = []
      else RaisesLast raises topic subs rest deliveredGroups broker
    | some group =>
      if deliveredGroups.contains group then
        RaisesLast raises topic subs rest deliveredGroups broker
      else
        match broker.select topic subs group with
        | none => True
        | some (member, broker) =>
          if raises member.handler then
            due rest (group :: deliveredGroups) = []
          else RaisesLast raises topic subs rest (group :: deliveredGroups) broker

theorem raisesLast_of_returning (topic : List Char)
    (subs rest : List (Subscription η)) (deliveredGroups : List (List Char))
    (broker : InMemoryMessageBroker η) :
    RaisesLast (fun _ => false) topic subs rest deliveredGroups broker := by
  induction rest generalizing deliveredGroups broker with
  | nil => trivial
  | cons sub rest ih =>
    unfold RaisesLast
    cases sub.group with
    | none => exact ih deliveredGroups broker
    | some group =>
      dsimp only
      split
      · exact ih deliveredGroups broker
      · cases broker.select topic subs group with
        | none => trivial
        | some drawn => exact ih _ drawn.2

structure Delivers (raises : η → Bool) (topic : List Char)
    (subs rest : List (Subscription η)) (deliveredGroups : List (List Char))
    (broker : InMemoryMessageBroker η)
    (called : List η × InMemoryMessageBroker η) : Prop where
  serves : ∃ served left, due rest deliveredGroups = served ++ left ∧
    List.Forall₂ (Serves subs) served called.1 ∧
      (RaisesLast raises topic subs rest deliveredGroups broker ↔ left = [])
  stocked : Stocked called.2 topic subs
  subscriptions : called.2.subscriptions = broker.subscriptions
  running : called.2.running = broker.running
  others : ∀ other name, other ≠ topic →
    called.2.groupIterators (other, name) = broker.groupIterators (other, name)

theorem delivers_deliver {raises : η → Bool} {topic : List Char}
    {subs rest : List (Subscription η)} (hrest : rest ⊆ subs)
    (deliveredGroups : List (List Char)) {broker : InMemoryMessageBroker η}
    (hbroker : Stocked broker topic subs) :
    Delivers raises topic subs rest deliveredGroups broker
      (broker.deliver raises topic subs rest deliveredGroups) := by
  induction rest generalizing deliveredGroups broker with
  | nil =>
    exact ⟨⟨[], [], rfl, .nil, iff_of_true trivial rfl⟩, hbroker, rfl, rfl, fun _ _ _ => rfl⟩
  | cons sub rest ih =>
    have hsub := hrest mem_cons_self
    have hrest := fun other hother =>
      hrest (mem_cons_of_mem (a := other) sub hother)
    unfold InMemoryMessageBroker.deliver
    cases hgroup : sub.group with
    | none =>
      have hserves : Serves subs sub sub.handler := by simp [Serves, hgroup]
      dsimp only
      split
      · rename_i hraises
        refine ⟨⟨[sub], due rest deliveredGroups, ?_, ?_, ?_⟩, hbroker,
          rfl, rfl, fun _ _ _ => rfl⟩
        · simp [due, hgroup]
        · exact .cons hserves .nil
        · simp [RaisesLast, hgroup, hraises]
      · rename_i hraises
        obtain ⟨⟨served, left, hdue, hcalled, hlast⟩, hstocked, hsubs, hrun,
          hothers⟩ := ih hrest deliveredGroups hbroker
        refine ⟨⟨sub :: served, left, ?_, ?_, ?_⟩, hstocked, hsubs, hrun, hothers⟩
        · simp [due, hgroup, hdue]
        · exact .cons hserves hcalled
        · simpa [RaisesLast, hgroup, hraises] using hlast
    | some group =>
      dsimp only
      split
      · rename_i hdelivered
        rw [contains_iff_mem] at hdelivered
        obtain ⟨⟨served, left, hdue, hcalled, hlast⟩, hstocked, hsubs, hrun,
          hothers⟩ := ih hrest deliveredGroups hbroker
        refine ⟨⟨served, left, ?_, hcalled, ?_⟩, hstocked, hsubs, hrun, hothers⟩
        · simp [due, hgroup, hdelivered, hdue]
        · simpa [RaisesLast, hgroup, hdelivered] using hlast
      · rename_i hdelivered
        rw [contains_iff_mem] at hdelivered
        obtain ⟨member, after, hselect, hmember, hafter, hsame, hrunning,
          hothers⟩ := hbroker.exists_select hsub hgroup
        have hserves : Serves subs sub member.handler := by
          simp only [Serves, hgroup]
          exact ⟨member, hmember, rfl⟩
        rw [hselect]
        dsimp only
        split
        · rename_i hraises
          refine ⟨⟨[sub], due rest (group :: deliveredGroups), ?_, ?_, ?_⟩,
            hafter, hsame, hrunning, hothers⟩
          · simp [due, hgroup, hdelivered]
          · exact .cons hserves .nil
          · simp [RaisesLast, hgroup, hdelivered, hselect, hraises]
        · rename_i hraises
          obtain ⟨⟨served, left, hdue, hcalled, hlast⟩, hstocked, hsubs,
            hrun, hkept⟩ := ih hrest (group :: deliveredGroups) hafter
          refine ⟨⟨sub :: served, left, ?_, ?_, ?_⟩, hstocked,
            hsubs.trans hsame, hrun.trans hrunning,
            fun other name hother =>
              (hkept other name hother).trans (hothers other name hother)⟩
          · simp [due, hgroup, hdelivered, hdue]
          · exact .cons hserves hcalled
          · simpa [RaisesLast, hgroup, hdelivered, hselect, hraises] using hlast

end PyFly.Messaging
