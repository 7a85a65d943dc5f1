import PyFly.MemoryBroker
import PyFly.Library.Histories
import PyFly.Library.ScheduledMachine

/-!
# Publications and subscriptions in any order

The lock of the broker is never held across an `await`, so a critical section
is one step.  A publication may draw from a group long after it has read the
subscriptions, and the iterator which it builds then misses who joined in
between.
-/

namespace PyFly.Messaging

open Library List

variable {η : Type}

/-- A call of `publish` in its loop over the subscriptions it has read. -/
structure Publication (η : Type) where
  topic : List Char
  subs : List (Subscription η)
  next : ℕ := 0
  deliveredGroups : List (List Char) := []

structure BrokerState (η : Type) where
  broker : InMemoryMessageBroker η := {}
  publications : List (Publication η) := []

/-- `resume` is the next turn of the loop of a publication, whose handler has
returned. -/
inductive BrokerStep (η : Type)
  | subscribe (topic : List Char) (handler : η) (group : Option (List Char))
  | publish (topic : List Char)
  | resume (call : ℕ)
  | start
  | stop

inductive BrokerEvent (η : Type)
  | subscribed (topic : List Char) (member : Member η) (group : Option (List Char))
  | published (call : ℕ) (topic : List Char)
  | handed (call : ℕ) (topic : List Char) (member : Member η) (group : Option (List Char))

namespace BrokerState

variable (state : BrokerState η)

def subscribe (topic : List Char) (handler : η)
    (group : Option (List Char)) : BrokerState η × List (BrokerEvent η) :=
  ({ state with broker := state.broker.subscribe topic handler group },
    [.subscribed topic ⟨(state.broker.subscriptions topic).length, handler⟩ group])

def publish (topic : List Char) : Option (BrokerState η × List (BrokerEvent η)) :=
  if state.broker.running then
    some ({ state with publications := state.publications ++
        [{ topic := topic, subs := state.broker.subscriptions topic }] },
      [.published state.publications.length topic])
  else none

/-- A turn of the loop of `publish`. -/
def deliver (call : ℕ) (publication : Publication η) (sub : Subscription η) :
    Option (BrokerState η × List (BrokerEvent η)) :=
  let advanced := { publication with next := publication.next + 1 }
  let topic := publication.topic
  match sub.group with
  | none =>
    some ({ state with publications := state.publications.set call advanced },
      [.handed call topic ⟨publication.next, sub.handler⟩ none])
  | some group =>
    if publication.deliveredGroups.contains group then
      some ({ state with
        publications := state.publications.set call advanced }, [])
    else
      (state.broker.select topic publication.subs group).map fun drawn =>
        ({ broker := drawn.2
           publications := state.publications.set call { advanced with
            deliveredGroups := group :: publication.deliveredGroups } },
          [.handed call topic drawn.1 (some group)])

def resume (call : ℕ) : Option (BrokerState η × List (BrokerEvent η)) := do
  let publication ← state.publications[call]?
  let sub ← publication.subs[publication.next]?
  state.deliver call publication sub

def step : BrokerStep η → Option (BrokerState η × List (BrokerEvent η))
  | .subscribe topic handler group => some (state.subscribe topic handler group)
  | .publish topic => state.publish topic
  | .resume call => state.resume call
  | .start => some ({ state with broker.running := true }, [])
  | .stop => some ({ state with broker.running := false }, [])

end BrokerState

def brokerMachine (η : Type) : Machine (BrokerState η) (BrokerStep η) (BrokerEvent η) where
  step state pick := state.step pick

/-! ## The delivery to groups -/

def turnOf (topic group : List Char) : BrokerEvent η → Option (Turn (Member η))
  | .subscribed other member (some joined) =>
    if other = topic ∧ joined = group then some (.joined member) else none
  | .handed _ other member (some served) =>
    if other = topic ∧ served = group then some (.selected member) else none
  | _ => none

def turnsOf (topic group : List Char) (trace : List (BrokerEvent η)) : List (Turn (Member η)) :=
  trace.filterMap (turnOf topic group)

def servingOf (call : ℕ) (topic group : List Char) : BrokerEvent η → Option (Member η)
  | .handed other served member (some name) =>
    if other = call ∧ served = topic ∧ name = group then some member else none
  | _ => none

def servings (call : ℕ) (topic group : List Char)
    (trace : List (BrokerEvent η)) : List (Member η) :=
  trace.filterMap (servingOf call topic group)

structure FairDelivery
    (run : Execution (BrokerState η) (BrokerEvent η)) : Prop where
  served : ∀ front call topic back publication group,
    run.trace = front ++ .published call topic :: back →
      run.state.publications[call]? = some publication →
        publication.subs.length ≤ publication.next →
          Turn.members (turnsOf topic group front) ≠ [] →
            (servings call topic group run.trace).length = 1
  once : ∀ call topic group, (servings call topic group run.trace).length ≤ 1
  subscribed : ∀ topic group, AtEach (fun front turn =>
    ∀ member, turn = .selected member → member ∈ Turn.members front)
      (turnsOf topic group run.trace)
  fair : ∀ topic group, Turn.Fair (turnsOf topic group run.trace)

/-- Whether a step that draws from a group draws from an iterator which has
all its members, or is not yet the turn which completes a round since the last
of them joined. -/
def Timely (state : BrokerState η) : BrokerStep η → Prop
  | .resume call => ∀ publication sub group drawn,
      state.publications[call]? = some publication →
        publication.subs[publication.next]? = some sub →
          sub.group = some group → group ∉ publication.deliveredGroups →
            let topic := publication.topic
            let subs := publication.subs
            let members :=
              groupHandlers (state.broker.subscriptions topic) group
            state.broker.select topic subs group = some drawn →
              (state.broker.iterator topic subs group).items = members ∨
                (state.broker.iterator topic subs group).taken + 1 < members.length
  | _ => True

/-! ## What the broker keeps -/

def Tracks (iterator : Option (CycleIterator (Member η)))
    (turns : List (Turn (Member η))) : Prop :=
  match iterator with
  | none => Turn.current turns = []
  | some iterator => iterator.items ≠ [] ∧
      iterator.items <+: Turn.members turns ∧ Turn.current turns =
          CycleIterator.drawn iterator.items 0 iterator.taken

structure Keeps (broker : InMemoryMessageBroker η)
    (trace : List (BrokerEvent η)) (call : ℕ) (publication : Publication η) :
    Prop where
  snapshot : publication.subs <+: broker.subscriptions publication.topic
  counts : ∀ topic group, (servings call topic group trace).length =
    if topic = publication.topic ∧ group ∈ publication.deliveredGroups then 1
    else 0
  passed : ∀ sub ∈ publication.subs.take publication.next, ∀ group,
    sub.group = some group → group ∈ publication.deliveredGroups

def ReadGroups (publications : List (Publication η))
    (front : List (BrokerEvent η)) (event : BrokerEvent η) : Prop :=
  ∀ call topic, event = .published call topic →
    ∃ publication, publications[call]? = some publication ∧
      publication.topic = topic ∧ ∀ group, Turn.members (turnsOf topic group front) =
          groupHandlers publication.subs group

structure Coherent (run : Execution (BrokerState η) (BrokerEvent η)) :
    Prop where
  members : ∀ topic group, Turn.members (turnsOf topic group run.trace) =
    groupHandlers (run.state.broker.subscriptions topic) group
  iterators : ∀ topic group, Tracks (run.state.broker.groupIterators (topic, group))
      (turnsOf topic group run.trace)
  subscribed : ∀ topic group, AtEach (fun front turn =>
    ∀ member, turn = .selected member → member ∈ Turn.members front)
      (turnsOf topic group run.trace)
  publications : ∀ call publication, run.state.publications[call]? = some publication →
      Keeps run.state.broker run.trace call publication
  fresh : ∀ call, run.state.publications.length ≤ call → ∀ topic group,
    servings call topic group run.trace = []
  published : AtEach (ReadGroups run.state.publications) run.trace

theorem coherent_initial : Coherent (η := η) ⟨{}, []⟩ where
  members _ _ := rfl
  iterators _ _ := rfl
  subscribed _ _ := AtEach.nil
  publications call publication hcall := by simp at hcall
  fresh _ _ _ _ := rfl
  published := AtEach.nil

variable {run : Execution (BrokerState η) (BrokerEvent η)}

theorem Coherent.fairDelivery (hrun : Coherent run)
    (hfair : ∀ topic group, Turn.Fair (turnsOf topic group run.trace)) :
    FairDelivery run where
  served := by
    intro front call topic back publication group hsplit hcall hover hjoined
    obtain ⟨found, hfound, htopic, hgroups⟩ :=
      hrun.published front _ back hsplit call topic rfl
    obtain rfl : found = publication :=
      Option.some.inj (hfound.symm.trans hcall)
    have hkeeps := hrun.publications call found hcall
    have hdelivered : group ∈ found.deliveredGroups := by
      rw [hgroups] at hjoined
      obtain ⟨member, hmember⟩ := exists_mem_of_ne_nil _ hjoined
      obtain ⟨⟨sub, place⟩, hsub, hsome⟩ := mem_filterMap.mp hmember
      have hgroup : sub.group = some group := by
        by_contra hne
        simp [hne] at hsome
      apply hkeeps.passed sub _ group hgroup
      rw [take_of_length_le hover]
      exact fst_mem_of_mem_zipIdx hsub
    rw [hkeeps.counts, if_pos ⟨htopic.symm, hdelivered⟩]
  once := by
    intro call topic group
    cases hcall : run.state.publications[call]? with
    | none =>
      rw [hrun.fresh call (List.getElem?_eq_none_iff.mp hcall)]
      exact Nat.zero_le 1
    | some publication =>
      rw [(hrun.publications call publication hcall).counts]
      split <;> omega
  subscribed := hrun.subscribed
  fair := hfair

/-! ## The steps -/

theorem turnsOf_concat (topic group : List Char)
    (trace : List (BrokerEvent η)) (event : BrokerEvent η) :
    turnsOf topic group (trace ++ [event]) =
      turnsOf topic group trace ++ (turnOf topic group event).toList := by
  rw [turnsOf, filterMap_append, turnsOf]
  cases hturn : turnOf topic group event with
  | none => simp [hturn]
  | some turn => simp [hturn]

theorem servings_concat (call : ℕ) (topic group : List Char)
    (trace : List (BrokerEvent η)) (event : BrokerEvent η) :
    servings call topic group (trace ++ [event]) = servings call topic group trace ++
        (servingOf call topic group event).toList := by
  rw [servings, filterMap_append, servings]
  cases hserving : servingOf call topic group event with
  | none => simp [hserving]
  | some member => simp [hserving]

variable {publications : List (Publication η)} {call : ℕ} {publication : Publication η}

theorem getElem?_set_cases {other : ℕ} {advanced : Publication η}
    (hother : (publications.set call advanced)[other]? = some publication) :
    (other = call ∧ publication = advanced) ∨
      (other ≠ call ∧ publications[other]? = some publication) := by
  rw [List.getElem?_set] at hother
  split at hother
  · rename_i hcall
    split at hother
    · exact .inl ⟨hcall.symm, (Option.some.inj hother).symm⟩
    · cases hother
  · rename_i hcall
    exact .inr ⟨fun h => hcall h.symm, hother⟩

theorem ReadGroups.set {front : List (BrokerEvent η)} {event : BrokerEvent η}
    (hread : ReadGroups publications front event) {advanced : Publication η}
    (hcall : publications[call]? = some publication)
    (htopic : advanced.topic = publication.topic)
    (hsubs : advanced.subs = publication.subs) :
    ReadGroups (publications.set call advanced) front event := by
  intro other topic hevent
  obtain ⟨found, hfound, hfoundTopic, hgroups⟩ := hread other topic hevent
  by_cases hsame : other = call
  · subst hsame
    obtain rfl : found = publication :=
      Option.some.inj (hfound.symm.trans hcall)
    refine ⟨advanced, ?_, htopic.trans hfoundTopic, ?_⟩
    · rw [List.getElem?_set_self (List.getElem?_eq_some_iff.mp hcall).1]
    · rw [hsubs]
      exact hgroups
  · refine ⟨found, ?_, hfoundTopic, hgroups⟩
    rw [List.getElem?_set_ne (Ne.symm hsame)]
    exact hfound

theorem readGroups_of_ne {front : List (BrokerEvent η)} {event : BrokerEvent η}
    (hevent : ∀ call topic, event ≠ .published call topic) :
    ReadGroups publications front event :=
  fun call topic heq => absurd heq (hevent call topic)

theorem Coherent.subscribe (hrun : Coherent run) (topic : List Char)
    (handler : η) (group : Option (List Char)) :
    Coherent ⟨(run.state.subscribe topic handler group).1,
      run.trace ++ (run.state.subscribe topic handler group).2⟩ := by
  have hplace : ∀ other name, (turnOf other name (.subscribed topic
      ⟨(run.state.broker.subscriptions topic).length, handler⟩ group)).toList =
        if topic = other ∧ group = some name then
          [.joined ⟨(run.state.broker.subscriptions topic).length, handler⟩]
        else [] := by
    intro other name
    cases group with
    | none => simp [turnOf]
    | some joined =>
      simp only [turnOf, Option.some.injEq]
      split <;> rfl
  have hserving : ∀ call other name, servingOf call other name (.subscribed topic
        ⟨(run.state.broker.subscriptions topic).length, handler⟩ group) =
          none := fun _ _ _ => rfl
  dsimp only [BrokerState.subscribe]
  exact {
    members := by
      intro other name
      have hmembers := hrun.members other name
      rw [turnsOf_concat, hplace]
      by_cases htopic : topic = other
      · subst htopic
        simp only [InMemoryMessageBroker.subscribe, Function.update_self,
          groupHandlers_concat, true_and, ← hmembers]
        split
        · exact Turn.members_joined
        · rw [append_nil, append_nil]
      · simp only [InMemoryMessageBroker.subscribe, htopic, false_and, if_false,
          append_nil, Function.update_of_ne (Ne.symm htopic), hmembers]
    iterators := by
      intro other name
      have hiterators := hrun.iterators other name
      rw [turnsOf_concat, hplace]
      split
      · rename_i hsame
        obtain ⟨rfl, rfl⟩ := hsame
        simp [InMemoryMessageBroker.subscribe, Tracks]
      · rename_i hother
        rw [append_nil]
        cases group with
        | none => exact hiterators
        | some joined =>
          have hne : (other, name) ≠ (topic, joined) := by
            rintro heq
            cases heq
            exact hother ⟨rfl, rfl⟩
          simpa [InMemoryMessageBroker.subscribe,
            Function.update_of_ne hne] using hiterators
    subscribed := by
      intro other name
      rw [turnsOf_concat, hplace]
      apply (hrun.subscribed other name).append
      intro turn hturn front member hselected
      split at hturn
      · rw [mem_singleton.mp hturn] at hselected
        cases hselected
      · cases hturn
    publications := by
      intro call publication hcall
      have hkeeps := hrun.publications call publication hcall
      exact {
        snapshot := by
          by_cases htopic : publication.topic = topic
          · rw [InMemoryMessageBroker.subscriptions_subscribe, htopic,
              Function.update_self, ← htopic]
            exact hkeeps.snapshot.trans (prefix_append _ _)
          · rw [InMemoryMessageBroker.subscriptions_subscribe,
              Function.update_of_ne htopic]
            exact hkeeps.snapshot
        counts := by
          intro other name
          rw [servings_concat, hserving, Option.toList_none, append_nil]
          exact hkeeps.counts other name
        passed := hkeeps.passed }
    fresh := by
      intro call hcall other name
      rw [servings_concat, hserving, hrun.fresh call hcall]
      rfl
    published := hrun.published.concat
      (readGroups_of_ne fun _ _ heq => by cases heq) }

variable {next : BrokerState η} {events : List (BrokerEvent η)}

theorem Coherent.publish (hrun : Coherent run) {topic : List Char}
    (hstep : run.state.publish topic = some (next, events)) :
    Coherent ⟨next, run.trace ++ events⟩ := by
  unfold BrokerState.publish at hstep
  split at hstep
  · cases hstep
    have hturns : ∀ other name, turnsOf other name (run.trace ++
        [.published run.state.publications.length topic]) = turnsOf other name run.trace := by
      intro other name
      rw [turnsOf_concat]
      exact append_nil _
    have hservings : ∀ call other name, servings call other name (run.trace ++
        [.published run.state.publications.length topic]) =
          servings call other name run.trace := by
      intro call other name
      rw [servings_concat]
      exact append_nil _
    exact {
      members := fun other name => by
        rw [hturns]
        exact hrun.members other name
      iterators := fun other name => by
        rw [hturns]
        exact hrun.iterators other name
      subscribed := fun other name => by
        rw [hturns]
        exact hrun.subscribed other name
      publications := by
        intro call publication hcall
        rw [List.getElem?_append] at hcall
        split at hcall
        · have hkeeps := hrun.publications call publication hcall
          exact {
            snapshot := hkeeps.snapshot
            counts := fun other name => by
              rw [hservings]
              exact hkeeps.counts other name
            passed := hkeeps.passed }
        · rename_i hlength
          obtain rfl : publication =
              { topic := topic
                subs := run.state.broker.subscriptions topic } :=
            mem_singleton.mp (mem_of_getElem? hcall)
          exact {
            snapshot := prefix_refl _
            counts := by
              intro other name
              rw [hservings, hrun.fresh call (Nat.not_lt.mp hlength)]
              simp
            passed := by simp }
      fresh := by
        intro call hcall other name
        rw [hservings]
        apply hrun.fresh call _ other name
        simp only [length_append] at hcall
        omega
      published := by
        have hread : AtEach (ReadGroups (run.state.publications ++
            [{ topic := topic, subs := run.state.broker.subscriptions topic }]))
              run.trace := by
          refine hrun.published.mono fun front event hread => ?_
          intro call other hevent
          obtain ⟨publication, hfound, hrest⟩ := hread call other hevent
          have hlt := (List.getElem?_eq_some_iff.mp hfound).1
          refine ⟨publication, ?_, hrest⟩
          rw [List.getElem?_append_left hlt]
          exact hfound
        apply hread.concat
        intro call other hevent
        cases hevent
        refine ⟨_, List.getElem?_concat_length, rfl, ?_⟩
        exact fun group => hrun.members topic group }
  · cases hstep

variable {sub : Subscription η}

theorem Coherent.pass (hrun : Coherent run)
    (hcall : run.state.publications[call]? = some publication)
    (hsub : publication.subs[publication.next]? = some sub)
    (hgroup : ∀ group, sub.group = some group →
      group ∈ publication.deliveredGroups) (hevents : events = [] ∨
      ∃ member, events = [.handed call publication.topic member none]) :
    Coherent ⟨{ run.state with
      publications := run.state.publications.set call
        { publication with next := publication.next + 1 } },
      run.trace ++ events⟩ := by
  have hturns : ∀ topic group, turnsOf topic group (run.trace ++ events) =
      turnsOf topic group run.trace := by
    intro topic group
    rcases hevents with rfl | ⟨member, rfl⟩
    · rw [append_nil]
    · rw [turnsOf_concat]
      exact append_nil _
  have hservings : ∀ other topic group, servings other topic group (run.trace ++ events) =
        servings other topic group run.trace := by
    intro other topic group
    rcases hevents with rfl | ⟨member, rfl⟩
    · rw [append_nil]
    · rw [servings_concat]
      exact append_nil _
  have hkeeps := hrun.publications call publication hcall
  exact {
    members := fun topic group => by
      rw [hturns]
      exact hrun.members topic group
    iterators := fun topic group => by
      rw [hturns]
      exact hrun.iterators topic group
    subscribed := fun topic group => by
      rw [hturns]
      exact hrun.subscribed topic group
    publications := by
      intro other found hfound
      rcases getElem?_set_cases hfound with ⟨rfl, rfl⟩ | ⟨-, hold⟩
      · exact {
          snapshot := hkeeps.snapshot
          counts := fun topic group => by
            rw [hservings]
            exact hkeeps.counts topic group
          passed := by
            dsimp only
            rw [take_add_one, hsub]
            intro taken htaken group hsome
            rcases mem_append.mp htaken with htaken | htaken
            · exact hkeeps.passed taken htaken group hsome
            · obtain rfl : taken = sub := by simpa using htaken
              exact hgroup group hsome }
      · have hother := hrun.publications other found hold
        exact {
          snapshot := hother.snapshot
          counts := fun topic group => by
            rw [hservings]
            exact hother.counts topic group
          passed := hother.passed }
    fresh := by
      intro other hother topic group
      rw [hservings]
      exact hrun.fresh other (by simpa using hother) topic group
    published := by
      have hread : AtEach (ReadGroups (run.state.publications.set call
          { publication with next := publication.next + 1 })) run.trace :=
        hrun.published.mono fun front event hevent =>
          hevent.set hcall rfl rfl
      apply hread.append
      rcases hevents with rfl | ⟨member, rfl⟩
      · simp
      · intro event hevent front
        rw [mem_singleton.mp hevent]
        exact readGroups_of_ne fun _ _ heq => by cases heq }

theorem BrokerState.deliver_cases {state : BrokerState η}
    (hstep : state.deliver call publication sub = some (next, events)) :
    ((∀ group, sub.group = some group → group ∈ publication.deliveredGroups) ∧
      next = { state with
        publications := state.publications.set call
          { publication with next := publication.next + 1 } } ∧
      (events = [] ∨ ∃ member, events = [.handed call publication.topic member none])) ∨
    ∃ group member broker, sub.group = some group ∧ group ∉ publication.deliveredGroups ∧
      state.broker.select publication.topic publication.subs group = some (member, broker) ∧
      next = { broker := broker
               publications := state.publications.set call
                { publication with
                  next := publication.next + 1
                  deliveredGroups := group :: publication.deliveredGroups } } ∧
      events = [.handed call publication.topic member (some group)] := by
  unfold BrokerState.deliver at hstep
  cases hgroup : sub.group with
  | none =>
    simp only [hgroup, Option.some.injEq, Prod.mk.injEq] at hstep
    obtain ⟨rfl, rfl⟩ := hstep
    exact .inl ⟨nofun, rfl, .inr ⟨_, rfl⟩⟩
  | some group =>
    simp only [hgroup, contains_iff_mem] at hstep
    split at hstep
    · rename_i hdelivered
      simp only [Option.some.injEq, Prod.mk.injEq] at hstep
      obtain ⟨rfl, rfl⟩ := hstep
      refine .inl ⟨?_, rfl, .inl rfl⟩
      rintro other hother
      rw [← Option.some.inj hother]
      exact hdelivered
    · rename_i hdelivered
      obtain ⟨⟨member, broker⟩, hselect, heq⟩ :=
        Option.map_eq_some_iff.mp hstep
      cases heq
      exact .inr ⟨group, member, broker, rfl, hdelivered, hselect, rfl, rfl⟩

variable {group : List Char}

theorem Coherent.tracks_iterator (hrun : Coherent run)
    (hcall : run.state.publications[call]? = some publication)
    (hsub : sub ∈ publication.subs) (hgroup : sub.group = some group) :
    Tracks (some (run.state.broker.iterator publication.topic publication.subs
      group)) (turnsOf publication.topic group run.trace) := by
  have htracks := hrun.iterators publication.topic group
  unfold InMemoryMessageBroker.iterator
  cases hiterator : run.state.broker.groupIterators (publication.topic, group) with
  | none =>
    rw [hiterator] at htracks
    refine ⟨groupHandlers_ne_nil hsub hgroup, ?_, htracks⟩
    rw [hrun.members]
    exact groupHandlers_initial (hrun.publications call publication hcall).snapshot group
  | some iterator =>
    rw [hiterator] at htracks
    exact htracks

theorem Coherent.select (hrun : Coherent run) {member : Member η}
    {broker : InMemoryMessageBroker η}
    (hcall : run.state.publications[call]? = some publication)
    (hsub : publication.subs[publication.next]? = some sub)
    (hgroup : sub.group = some group)
    (hdelivered : group ∉ publication.deliveredGroups)
    (hselect : run.state.broker.select publication.topic publication.subs
      group = some (member, broker)) :
    Coherent ⟨{ broker := broker
                publications := run.state.publications.set call
                  { publication with
                    next := publication.next + 1
                    deliveredGroups := group :: publication.deliveredGroups } },
      run.trace ++ [.handed call publication.topic member (some group)]⟩ := by
  obtain ⟨hitem, rfl⟩ := InMemoryMessageBroker.select_eq_some hselect
  obtain ⟨hitems, hinitial, hcurrent⟩ := hrun.tracks_iterator hcall
    (mem_of_getElem? hsub) hgroup
  have hturns : ∀ topic name, turnsOf topic name (run.trace ++
      [.handed call publication.topic member (some group)]) = turnsOf topic name run.trace ++
          if publication.topic = topic ∧ group = name then [.selected member]
          else [] := by
    intro topic name
    rw [turnsOf_concat, turnOf]
    split <;> rfl
  have hservings : ∀ other topic name, servings other topic name (run.trace ++
      [.handed call publication.topic member (some group)]) =
        servings other topic name run.trace ++
          if call = other ∧ publication.topic = topic ∧ group = name then
            [member]
          else [] := by
    intro other topic name
    rw [servings_concat, servingOf]
    split <;> rfl
  have hkeeps := hrun.publications call publication hcall
  have hmembers : ∀ topic name, Turn.members (turnsOf topic name
      (run.trace ++ [.handed call publication.topic member (some group)])) =
        Turn.members (turnsOf topic name run.trace) := by
    intro topic name
    rw [hturns]
    split
    · exact Turn.members_append_selected [member]
    · rw [append_nil]
  exact {
    members := fun topic name => by
      rw [hmembers]
      exact hrun.members topic name
    iterators := by
      intro topic name
      dsimp only
      by_cases hsame : publication.topic = topic ∧ group = name
      · obtain ⟨rfl, rfl⟩ := hsame
        rw [Function.update_self]
        refine ⟨hitems, ?_, ?_⟩
        · rw [hmembers]
          exact hinitial
        · rw [hturns, if_pos ⟨rfl, rfl⟩]
          refine (Turn.current_append_selected [member]).trans ?_
          rw [hcurrent]
          apply (CycleIterator.drawn_succ _).symm
          rwa [Nat.zero_add]
      · have hne : (topic, name) ≠ (publication.topic, group) := by
          rintro heq
          cases heq
          exact hsame ⟨rfl, rfl⟩
        rw [Function.update_of_ne hne, hturns, if_neg hsame, append_nil]
        exact hrun.iterators topic name
    subscribed := by
      intro topic name
      rw [hturns]
      split
      · rename_i hsame
        obtain ⟨rfl, rfl⟩ := hsame
        apply (hrun.subscribed publication.topic group).concat
        intro other hother
        cases hother
        exact hinitial.subset (mem_of_getElem? hitem)
      · rw [append_nil]
        exact hrun.subscribed topic name
    publications := by
      intro other found hfound
      rcases getElem?_set_cases hfound with ⟨rfl, rfl⟩ | ⟨hne, hold⟩
      · exact {
          snapshot := hkeeps.snapshot
          counts := by
            intro topic name
            rw [hservings, length_append, hkeeps.counts]
            by_cases hname : group = name
            · subst hname
              by_cases htopic : publication.topic = topic
              · simp [htopic, hdelivered]
              · simp [htopic, Ne.symm htopic]
            · simp [hname, Ne.symm hname]
          passed := by
            dsimp only
            rw [take_add_one, hsub]
            intro taken htaken name hname
            rcases mem_append.mp htaken with htaken | htaken
            · exact mem_cons_of_mem _
                (hkeeps.passed taken htaken name hname)
            · obtain rfl : taken = sub := by simpa using htaken
              rw [← Option.some.inj (hgroup.symm.trans hname)]
              exact mem_cons_self }
      · have hother := hrun.publications other found hold
        exact {
          snapshot := hother.snapshot
          counts := by
            intro topic name
            rw [hservings, if_neg (fun h => hne h.1.symm), append_nil]
            exact hother.counts topic name
          passed := hother.passed }
    fresh := by
      intro other hother topic name
      have hlt := (List.getElem?_eq_some_iff.mp hcall).1
      have hlength : run.state.publications.length ≤ other := by
        simpa using hother
      rw [hservings, if_neg (fun h => by omega), hrun.fresh other hlength]
      rfl
    published := by
      have hread : AtEach (ReadGroups (run.state.publications.set call
          { publication with
            next := publication.next + 1
            deliveredGroups := group :: publication.deliveredGroups }))
              run.trace :=
        hrun.published.mono fun front event hevent =>
          hevent.set hcall rfl rfl
      exact hread.concat (readGroups_of_ne fun _ _ heq => by cases heq) }

/-! ## Runs -/

theorem BrokerState.resume_cases {state : BrokerState η}
    (hstep : state.resume call = some (next, events)) :
    ∃ publication sub, state.publications[call]? = some publication ∧
      publication.subs[publication.next]? = some sub ∧
      state.deliver call publication sub = some (next, events) := by
  unfold BrokerState.resume at hstep
  cases hcall : state.publications[call]? with
  | none => simp [hcall] at hstep
  | some publication =>
    cases hsub : publication.subs[publication.next]? with
    | none => simp [hcall, hsub] at hstep
    | some sub =>
      refine ⟨publication, sub, rfl, hsub, ?_⟩
      simpa [hcall, hsub] using hstep

theorem Coherent.step (hrun : Coherent run) {pick : BrokerStep η}
    {next : BrokerState η} {events : List (BrokerEvent η)}
    (hstep : run.state.step pick = some (next, events)) :
    Coherent ⟨next, run.trace ++ events⟩ := by
  cases pick with
  | subscribe topic handler group =>
    cases hstep
    exact hrun.subscribe topic handler group
  | publish topic => exact hrun.publish hstep
  | resume call =>
    obtain ⟨publication, sub, hcall, hsub, hdeliver⟩ :=
      BrokerState.resume_cases hstep
    rcases BrokerState.deliver_cases hdeliver with
      ⟨hgroup, rfl, hevents⟩ |
      ⟨group, member, broker, hgroup, hdelivered, hselect, rfl, rfl⟩
    · exact hrun.pass hcall hsub hgroup hevents
    · exact hrun.select hcall hsub hgroup hdelivered hselect
  | start =>
    cases hstep
    rw [append_nil]
    exact { hrun with
      publications := fun call publication hcall =>
        { hrun.publications call publication hcall with } }
  | stop =>
    cases hstep
    rw [append_nil]
    exact { hrun with
      publications := fun call publication hcall =>
        { hrun.publications call publication hcall with } }

theorem Coherent.fair_select_iff (hrun : Coherent run)
    (hfair : ∀ topic group, Turn.Fair (turnsOf topic group run.trace))
    {member : Member η} {broker : InMemoryMessageBroker η}
    (hcall : run.state.publications[call]? = some publication)
    (hsub : sub ∈ publication.subs) (hgroup : sub.group = some group)
    (hselect : run.state.broker.select publication.topic publication.subs
      group = some (member, broker)) :
    let iterator :=
      run.state.broker.iterator publication.topic publication.subs group
    let members := groupHandlers
      (run.state.broker.subscriptions publication.topic) group
    (∀ topic name, Turn.Fair (turnsOf topic name (run.trace ++
      [.handed call publication.topic member (some group)]))) ↔
        iterator.items = members ∨ iterator.taken + 1 < members.length := by
  intro iterator members
  have hitem := (InMemoryMessageBroker.select_eq_some hselect).1
  obtain ⟨hitems, hinitial, hcurrent⟩ :=
    hrun.tracks_iterator hcall hsub hgroup
  have hmembers := hrun.members publication.topic group
  have hnodup := nodup_groupHandlers (run.state.broker.subscriptions publication.topic) group
  rw [hmembers] at hinitial
  have hthis : Turn.Fair (turnsOf publication.topic group (run.trace ++
      [.handed call publication.topic member (some group)])) ↔
        iterator.items = members ∨ iterator.taken + 1 < members.length := by
    have hturn : turnOf publication.topic group
        (.handed call publication.topic member (some group)) =
          some (.selected member) := if_pos ⟨rfl, rfl⟩
    have hdrawn : Turn.current (turnsOf publication.topic group run.trace) ++
        [member] = CycleIterator.drawn iterator.items 0 (iterator.taken + 1) := by
      rw [hcurrent]
      apply (CycleIterator.drawn_succ _).symm
      rwa [Nat.zero_add]
    rw [turnsOf_concat, hturn, Option.toList_some, Turn.fair_selected_iff,
      hdrawn, hmembers, Turn.drawn_fair_iff hitems hinitial hnodup]
    exact and_iff_right (hfair publication.topic group)
  rw [← hthis]
  constructor
  · exact fun hall => hall publication.topic group
  · intro hone topic name
    by_cases hsame : publication.topic = topic ∧ group = name
    · obtain ⟨rfl, rfl⟩ := hsame
      exact hone
    · have hturn : turnOf topic name
          (.handed call publication.topic member (some group)) = none :=
        if_neg hsame
      rw [turnsOf_concat, hturn, Option.toList_none, append_nil]
      exact hfair topic name

theorem Coherent.fair_step_iff (hrun : Coherent run)
    (hfair : ∀ topic group, Turn.Fair (turnsOf topic group run.trace))
    {pick : BrokerStep η} (hstep : run.state.step pick = some (next, events)) :
    (∀ topic group, Turn.Fair (turnsOf topic group (run.trace ++ events))) ↔
      Timely run.state pick := by
  cases pick with
  | subscribe topic handler group =>
    cases hstep
    refine iff_of_true (fun other name => ?_) trivial
    cases group with
    | none =>
      rw [turnsOf_concat]
      exact (append_nil _).symm ▸ hfair other name
    | some joined =>
      rw [turnsOf_concat, turnOf]
      split
      · exact Turn.fair_joined_iff.mpr (hfair other name)
      · exact (append_nil _).symm ▸ hfair other name
  | publish topic =>
    simp only [BrokerState.step, BrokerState.publish] at hstep
    split at hstep
    · cases hstep
      refine iff_of_true (fun other name => ?_) trivial
      rw [turnsOf_concat]
      exact (append_nil _).symm ▸ hfair other name
    · cases hstep
  | start =>
    cases hstep
    rw [append_nil]
    exact iff_of_true hfair trivial
  | stop =>
    cases hstep
    rw [append_nil]
    exact iff_of_true hfair trivial
  | resume call =>
    obtain ⟨publication, sub, hcall, hsub, hdeliver⟩ :=
      BrokerState.resume_cases hstep
    rcases BrokerState.deliver_cases hdeliver with
      ⟨hgroup, rfl, hevents⟩ |
      ⟨group, member, broker, hgroup, hdelivered, hselect, rfl, rfl⟩
    · apply iff_of_true
      · intro topic name
        rcases hevents with rfl | ⟨member, rfl⟩
        · rw [append_nil]
          exact hfair topic name
        · rw [turnsOf_concat]
          exact (append_nil _).symm ▸ hfair topic name
      · intro found other name drawn hfound hother hname hnot
        obtain rfl : publication = found :=
          Option.some.inj (hcall.symm.trans hfound)
        obtain rfl : sub = other := Option.some.inj (hsub.symm.trans hother)
        exact absurd (hgroup name hname) hnot
    · apply (hrun.fair_select_iff hfair hcall (mem_of_getElem? hsub) hgroup hselect).trans
      constructor
      · intro htimely found other name drawn hfound hother hname _ _ _ _ _
        obtain rfl : publication = found :=
          Option.some.inj (hcall.symm.trans hfound)
        obtain rfl : sub = other := Option.some.inj (hsub.symm.trans hother)
        obtain rfl : group = name :=
          Option.some.inj (hgroup.symm.trans hname)
        exact htimely
      · exact fun htimely => htimely publication sub group _ hcall hsub
          hgroup hdelivered hselect

theorem timely_of_disabled {state : BrokerState η} {pick : BrokerStep η}
    (hstep : state.step pick = none) : Timely state pick := by
  cases pick with
  | resume call =>
    intro publication sub group drawn hcall hsub hgroup hdelivered topic subs members hselect
    have hnone : state.broker.select publication.topic publication.subs group = none := by
      simpa [BrokerState.step, BrokerState.resume, hcall, hsub,
        BrokerState.deliver, hgroup, hdelivered] using hstep
    rw [hselect] at hnone
    cases hnone
  | _ => trivial

/-- Every publication reaches one member of each group and every group has its
turns in rounds, at each point of a run, exactly when each selection of the run
is timely. -/
theorem fairDelivery_iff (schedule : List (BrokerStep η)) :
    (∀ front, front <+: schedule → FairDelivery ((brokerMachine η).run {} front)) ↔
      (brokerMachine η).Meets Timely ⟨{}, []⟩ schedule := by
  have hfair : ∀ run : Execution (BrokerState η) (BrokerEvent η),
      Coherent run → (FairDelivery run ↔
        ∀ topic group, Turn.Fair (turnsOf topic group run.trace)) :=
    fun run hrun => ⟨FairDelivery.fair, hrun.fairDelivery⟩
  apply Machine.forall_prefix_iff_meets Coherent FairDelivery
  · intro execution pick next events hrun hstep
    exact hrun.step hstep
  · intro execution pick next events hrun hsafe hstep
    rw [hfair _ (hrun.step hstep)]
    exact hrun.fair_step_iff hsafe.fair hstep
  · intro state pick hstep
    exact timely_of_disabled hstep
  · exact coherent_initial
  · rw [hfair _ coherent_initial]
    intro topic group front window back hsplit hlength
    obtain ⟨rfl, hrest⟩ := append_eq_nil_iff.mp hsplit.symm
    rw [eq_nil_of_length_eq_zero hlength]
    exact List.Perm.refl _

/-- A publication waits for the handler in front of a group while a third
member joins the group. -/
def joining : List (BrokerStep ℕ) :=
  [.start, .subscribe ['t'] 0 none, .subscribe ['t'] 1 (some ['w']),
    .subscribe ['t'] 2 (some ['w']), .publish ['t'], .resume 0,
    .subscribe ['t'] 3 (some ['w']), .resume 0,
    .publish ['t'], .resume 1, .resume 1, .publish ['t'], .resume 2, .resume 2]

/-- The third member is not selected in the next three turns. -/
theorem not_fairDelivery_joining : ¬ FairDelivery ((brokerMachine ℕ).run {} joining) := by
  intro h
  have hround : [Member.mk 1 1, ⟨2, 2⟩, ⟨1, 1⟩].Perm [⟨1, 1⟩, ⟨2, 2⟩, ⟨3, 3⟩] :=
    h.fair ['t'] ['w'] [.joined ⟨1, 1⟩, .joined ⟨2, 2⟩, .joined ⟨3, 3⟩] _ [] rfl rfl
  exact absurd hround (by decide)

end PyFly.Messaging
