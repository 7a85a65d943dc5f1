import PyFly.BrokerAdapters
import Mathlib.Data.List.Count
import Mathlib.Data.List.Dedup

/-!
# What the brokers deliver

The subscriptions are numbered, and each has its number for its handler.
-/

namespace PyFly.Messaging

open Library List

/-- What a handler subscribes to. -/
structure Interest where
  topic : List Char
  group : Option (List Char)
  deriving DecidableEq

def entries (interests : List Interest) : List (HandlerEntry ℕ) :=
  interests.zipIdx.map fun entry => ⟨entry.1.topic, entry.2, entry.1.group⟩

def Adapter.ready (adapter : Adapter) (interests : List Interest) : MessageBroker ℕ :=
  ((entries interests).foldl MessageBroker.subscribe adapter.broker).start

def groupOf (interests : List Interest) (handler : ℕ) : Option (List Char) :=
  interests[handler]?.bind Interest.group

structure Delivered (interests : List Interest) (message : Message)
    (calls : List (ℕ × Message)) : Prop where
  ungrouped : ∀ handler : ℕ, interests[handler]? = some ⟨message.topic, none⟩ →
    calls.countP (fun call => call.1 = handler) = 1
  grouped : ∀ group, ⟨message.topic, some group⟩ ∈ interests →
    calls.countP (fun call => groupOf interests call.1 = some group) = 1
  topics : ∀ call ∈ calls, call.2.topic = message.topic ∧
    ∃ group, interests[call.1]? = some ⟨message.topic, group⟩

def Adapter.Suits (adapter : Adapter) (interests : List Interest) (topic : List Char) : Prop :=
  match adapter with
  | .memory => True
  | .kafka => ∀ (first second : ℕ) group, interests[first]? = some ⟨topic, some group⟩ →
        interests[second]? = some ⟨topic, some group⟩ → first = second
  | .rabbitMQ => ∀ (first second : ℕ) group other,
      interests[first]? = some ⟨topic, group⟩ → interests[second]? = some other →
          RabbitMQAdapter.queueName other.topic other.group =
            RabbitMQAdapter.queueName topic group →
              other = ⟨topic, group⟩ ∧ (group = none → first = second)

/-! ## The numbered handlers -/

variable {interests : List Interest}

theorem mem_entries {entry : HandlerEntry ℕ} : entry ∈ entries interests ↔
      interests[entry.handler]? = some ⟨entry.topic, entry.group⟩ := by
  rw [entries, mem_map]
  constructor
  · rintro ⟨⟨interest, handler⟩, hmem, rfl⟩
    exact mk_mem_zipIdx_iff_getElem?.mp hmem
  · intro hinterest
    exact ⟨(⟨entry.topic, entry.group⟩, entry.handler),
      mk_mem_zipIdx_iff_getElem?.mpr hinterest, rfl⟩

theorem nodup_entries (interests : List Interest) :
    ((entries interests).map (·.handler)).Nodup := by
  have hnumbers : (entries interests).map (·.handler) = interests.zipIdx.map Prod.snd := by
    rw [entries, map_map]
    rfl
  rw [hnumbers, zipIdx_map_snd]
  exact nodup_range'

variable {α : Type} {items : List α} {p : α → Bool}

theorem countP_eq_one (hnodup : items.Nodup) {item : α} (hitem : item ∈ items)
    (hp : p item) (honly : ∀ other ∈ items, p other → other = item) :
    items.countP p = 1 := by
  induction items with
  | nil => cases hitem
  | cons first rest ih =>
    obtain ⟨hfirst, hrest⟩ := nodup_cons.mp hnodup
    rcases mem_cons.mp hitem with rfl | hmem
    · have hzero : rest.countP p = 0 := by
        rw [countP_eq_zero]
        intro other hother hpother
        have heq := honly other (mem_cons_of_mem _ hother) hpother
        exact hfirst (heq ▸ hother)
      rw [countP_cons, hzero, if_pos hp]
    · have hnot : ¬ p first := by
        intro hpfirst
        exact hfirst (honly first mem_cons_self hpfirst ▸ hmem)
      rw [countP_cons, if_neg hnot]
      exact ih hrest hmem fun other hother =>
        honly other (mem_cons_of_mem _ hother)

theorem eq_of_countP_eq_one (hone : items.countP p = 1) {first second : α}
    (hfirst : first ∈ items) (hpfirst : p first) (hsecond : second ∈ items)
    (hpsecond : p second) :
    first = second := by
  rw [countP_eq_length_filter] at hone
  obtain ⟨item, hitem⟩ := length_eq_one_iff.mp hone
  have hin : ∀ other ∈ items, p other → other = item := by
    intro other hother hpother
    have hmem := mem_filter.mpr ⟨hother, hpother⟩
    rw [hitem] at hmem
    exact mem_singleton.mp hmem
  rw [hin first hfirst hpfirst, hin second hsecond hpsecond]

theorem exists_of_countP_eq_one (hone : items.countP p = 1) : ∃ item ∈ items, p item :=
  countP_pos_iff.mp (hone.symm ▸ Nat.one_pos)

theorem countP_eq_of_forall₂ {β : Type} {related : α → β → Prop}
    {others : List β} (hitems : List.Forall₂ related items others)
    {q : β → Bool}
    (hp : ∀ item ∈ items, ∀ other, related item other → p item = q other) :
    items.countP p = others.countP q := by
  induction hitems with
  | nil => rfl
  | cons hrelated _ ih =>
    rw [countP_cons, countP_cons, hp _ mem_cons_self _ hrelated]
    congr 1
    exact ih fun item hitem => hp item (mem_cons_of_mem _ hitem)

theorem exists_of_forall₂ {β : Type} {related : α → β → Prop} {others : List β}
    (hitems : List.Forall₂ related items others) {other : β}
    (hother : other ∈ others) : ∃ item ∈ items, related item other := by
  induction hitems with
  | nil => cases hother
  | cons hrelated _ ih =>
    rcases mem_cons.mp hother with rfl | hmem
    · exact ⟨_, mem_cons_self, hrelated⟩
    · obtain ⟨item, hitem, hboth⟩ := ih hmem
      exact ⟨item, mem_cons_of_mem _ hitem, hboth⟩

/-! ## The broker in memory -/

def subsOf (interests : List Interest) (topic : List Char) : List (Subscription ℕ) :=
  ((entries interests).filter fun entry => entry.topic = topic).map
    fun entry => ⟨entry.handler, entry.group⟩

theorem mem_subsOf {topic : List Char} {sub : Subscription ℕ} :
    sub ∈ subsOf interests topic ↔ interests[sub.handler]? = some ⟨topic, sub.group⟩ := by
  simp only [subsOf, mem_map, mem_filter, decide_eq_true_eq]
  constructor
  · rintro ⟨entry, ⟨hentry, rfl⟩, rfl⟩
    exact mem_entries.mp hentry
  · intro hinterest
    exact ⟨⟨topic, sub.handler, sub.group⟩, ⟨mem_entries.mpr hinterest, rfl⟩, rfl⟩

theorem nodup_subsOf (interests : List Interest) (topic : List Char) :
    ((subsOf interests topic).map (·.handler)).Nodup := by
  rw [subsOf, map_map]
  exact (nodup_entries interests).sublist (filter_sublist.map _)

variable {η : Type}

theorem mem_groupHandlers {subs : List (Subscription η)} {group : List Char}
    {member : Member η} (hmember : member ∈ groupHandlers subs group) :
    ⟨member.handler, some group⟩ ∈ subs := by
  obtain ⟨⟨sub, place⟩, hsub, hsome⟩ := mem_filterMap.mp hmember
  have hgroup : sub.group = some group := by
    by_contra hne
    simp [hne] at hsome
  rw [if_pos hgroup] at hsome
  rw [← Option.some.inj hsome, ← hgroup]
  exact fst_mem_of_mem_zipIdx hsub

structure Serving (interests : List Interest)
    (broker : InMemoryMessageBroker ℕ) : Prop where
  running : broker.running = true
  subscriptions : broker.subscriptions = subsOf interests
  stocked : ∀ topic, Stocked broker topic (subsOf interests topic)

theorem foldl_subscribe_memory (entries : List (HandlerEntry ℕ)) :
    ∃ broker : InMemoryMessageBroker ℕ,
      entries.foldl MessageBroker.subscribe (.memory {}) = .memory broker ∧
        (∀ topic, broker.subscriptions topic =
          (entries.filter fun entry => entry.topic = topic).map
            fun entry => ⟨entry.handler, entry.group⟩) ∧
          (∀ key, broker.groupIterators key = none) := by
  induction entries using List.reverseRecOn with
  | nil => exact ⟨{}, rfl, fun _ => rfl, fun _ => rfl⟩
  | append_singleton entries entry ih =>
    obtain ⟨broker, hbroker, hsubs, hnone⟩ := ih
    rw [foldl_append, hbroker]
    refine ⟨_, rfl, ?_, ?_⟩
    · intro topic
      rw [InMemoryMessageBroker.subscriptions_subscribe, filter_append, map_append, ← hsubs]
      by_cases htopic : entry.topic = topic
      · subst htopic
        simp
      · simp [htopic, Function.update_of_ne (Ne.symm htopic)]
    · intro key
      cases hgroup : entry.group with
      | none =>
        simpa [InMemoryMessageBroker.subscribe, hgroup] using hnone key
      | some group =>
        by_cases hkey : key = (entry.topic, group)
        · simp [InMemoryMessageBroker.subscribe, hkey]
        · simpa [InMemoryMessageBroker.subscribe, hgroup,
            Function.update_of_ne hkey] using hnone key

def memoryBroker (interests : List Interest) : InMemoryMessageBroker ℕ :=
  { subscriptions := subsOf interests
    running := true }

theorem memory_ready (interests : List Interest) :
    Adapter.memory.ready interests = .memory (memoryBroker interests) := by
  obtain ⟨broker, hbroker, hsubs, hnone⟩ :=
    foldl_subscribe_memory (entries interests)
  have hsame : { broker with running := true } = memoryBroker interests := by
    cases broker
    exact InMemoryMessageBroker.mk.injEq .. ▸
      ⟨funext hsubs, funext hnone, rfl⟩
  rw [Adapter.ready, Adapter.broker, hbroker, ← hsame]
  rfl

theorem serving_memoryBroker (interests : List Interest) :
    Serving interests (memoryBroker interests) where
  running := rfl
  subscriptions := rfl
  stocked _ _ _ hiterator := by cases hiterator

/-- What one publication calls. -/
theorem Serving.publish {broker : InMemoryMessageBroker ℕ}
    (hserving : Serving interests broker) (raises : ℕ → Bool)
    (topic : List Char) :
    Serving interests (broker.publish raises topic).2 ∧
      ∃ served left, due (subsOf interests topic) [] = served ++ left ∧
        List.Forall₂ (Serves (subsOf interests topic)) served (broker.publish raises topic).1 ∧
          (RaisesLast raises topic (subsOf interests topic)
            (subsOf interests topic) [] broker ↔ left = []) := by
  have hpublish : broker.publish raises topic =
      broker.deliver raises topic (subsOf interests topic) (subsOf interests topic) [] := by
    simp only [InMemoryMessageBroker.publish, hserving.running, if_true, hserving.subscriptions]
  have hdelivers : Delivers raises topic (subsOf interests topic)
      (subsOf interests topic) [] broker (broker.publish raises topic) := by
    rw [hpublish]
    exact delivers_deliver (List.Subset.refl _) [] (hserving.stocked topic)
  refine ⟨?_, hdelivers.serves⟩
  exact {
    running := hdelivers.running.trans hserving.running
    subscriptions := hdelivers.subscriptions.trans hserving.subscriptions
    stocked := by
      intro other
      by_cases hother : other = topic
      · subst hother
        exact hdelivers.stocked
      · intro group iterator hiterator
        rw [hdelivers.others other group hother] at hiterator
        exact hserving.stocked other group iterator hiterator }

theorem exists_record_of_mem_invocations {raises : ℕ → η → Bool}
    {broker : InMemoryMessageBroker η} {records : List (ℕ × Message)}
    {invocation : Invocation η}
    (hinvocation : invocation ∈ broker.invocations raises records) :
    ∃ message, (invocation.record, message) ∈ records := by
  induction records generalizing broker with
  | nil => cases hinvocation
  | cons record records ih =>
    obtain ⟨number, message⟩ := record
    rcases mem_append.mp hinvocation with hfirst | hrest
    · obtain ⟨handler, -, rfl⟩ := mem_map.mp hfirst
      exact ⟨message, mem_cons_self⟩
    · obtain ⟨other, hother⟩ := ih hrest
      exact ⟨other, mem_cons_of_mem _ hother⟩

def recordsFrom (start : ℕ) (messages : List Message) : List (ℕ × Message) :=
  (messages.zipIdx start).map fun (message, record) => (record, message)

variable {messages : List Message}

theorem lt_of_mem_recordsFrom {start : ℕ} {record : ℕ × Message}
    (hrecord : record ∈ recordsFrom start messages) :
    start ≤ record.1 := by
  obtain ⟨⟨message, number⟩, hmem, rfl⟩ := mem_map.mp hrecord
  exact le_snd_of_mem_zipIdx hmem

def InMemoryMessageBroker.after {η : Type} (raises : ℕ → η → Bool)
    (broker : InMemoryMessageBroker η) (records : List (ℕ × Message)) :
    InMemoryMessageBroker η :=
  records.foldl (fun broker record =>
    (broker.publish (raises record.1) record.2.topic).2) broker

variable {record : ℕ} {message : Message}

theorem Serving.calls {broker : InMemoryMessageBroker ℕ}
    (hserving : Serving interests broker) (raises : ℕ → ℕ → Bool)
    (hmessage : messages[record]? = some message) (start : ℕ) :
    let before :=
      broker.after raises (recordsFrom start (messages.take record))
    Serving interests before ∧ ((broker.invocations raises (recordsFrom start messages)).filter
        (·.record = start + record)).map
          (fun invocation => (invocation.handler, invocation.message)) =
        (before.publish (raises (start + record)) message.topic).1.map (·, message) := by
  induction messages generalizing broker record start with
  | nil => simp at hmessage
  | cons first rest ih =>
    have hsplit : broker.invocations raises (recordsFrom start (first :: rest)) =
          (broker.publish (raises start) first.topic).1.map (⟨start, ·, first⟩) ++
            (broker.publish (raises start) first.topic).2.invocations raises
              (recordsFrom (start + 1) rest) := rfl
    rw [hsplit, filter_append]
    cases record with
    | zero =>
      obtain rfl : first = message := by simpa using hmessage
      refine ⟨hserving, ?_⟩
      have hrest : ((broker.publish (raises start) first.topic).2.invocations raises
            (recordsFrom (start + 1) rest)).filter (·.record = start + 0) = [] := by
        rw [filter_eq_nil_iff]
        intro invocation hinvocation
        obtain ⟨other, hother⟩ :=
          exists_record_of_mem_invocations hinvocation
        have hle := lt_of_mem_recordsFrom hother
        simp only [decide_eq_true_eq]
        omega
      rw [hrest, append_nil, filter_eq_self.mpr, map_map]
      · rfl
      · intro invocation hinvocation
        obtain ⟨handler, -, rfl⟩ := mem_map.mp hinvocation
        simp
    | succ record =>
      have hfirst : ((broker.publish (raises start) first.topic).1.map
          (⟨start, ·, first⟩ : ℕ → Invocation ℕ)).filter
            (·.record = start + (record + 1)) = [] := by
        rw [filter_eq_nil_iff]
        intro invocation hinvocation
        obtain ⟨handler, -, rfl⟩ := mem_map.mp hinvocation
        simp
      have hnumber : start + (record + 1) = start + 1 + record := by omega
      rw [hfirst, nil_append, hnumber]
      exact ih (hserving.publish (raises start) first.topic).1
        (by simpa using hmessage) (start + 1)

theorem due_sublist (rest : List (Subscription η)) (deliveredGroups : List (List Char)) :
    (due rest deliveredGroups).Sublist rest := by
  induction rest generalizing deliveredGroups with
  | nil => exact List.Sublist.refl _
  | cons sub rest ih =>
    unfold due
    cases sub.group with
    | none => exact (ih deliveredGroups).cons_cons sub
    | some group =>
      dsimp only
      split
      · exact (ih deliveredGroups).cons sub
      · exact (ih _).cons_cons sub

theorem countP_due_ungrouped {p : Subscription η → Bool}
    (hp : ∀ sub, p sub = true → sub.group = none) (rest : List (Subscription η))
    (deliveredGroups : List (List Char)) :
    (due rest deliveredGroups).countP p = rest.countP p := by
  induction rest generalizing deliveredGroups with
  | nil => rfl
  | cons sub rest ih =>
    unfold due
    cases hgroup : sub.group with
    | none => simp only [countP_cons, ih]
    | some group =>
      have hnot : ¬ p sub = true := by
        intro hsub
        rw [hp sub hsub] at hgroup
        cases hgroup
      dsimp only
      split
      · rw [countP_cons, if_neg hnot, ih, Nat.add_zero]
      · rw [countP_cons, countP_cons, if_neg hnot, ih]

theorem countP_due_grouped (group : List Char) (rest : List (Subscription η))
    (deliveredGroups : List (List Char)) :
    (due rest deliveredGroups).countP (fun sub => sub.group = some group) =
      if group ∉ deliveredGroups ∧ ∃ sub ∈ rest, sub.group = some group then 1
      else 0 := by
  induction rest generalizing deliveredGroups with
  | nil => simp [due]
  | cons sub rest ih =>
    unfold due
    cases hgroup : sub.group with
    | none => simp [hgroup, ih]
    | some other =>
      dsimp only
      by_cases hother : other = group
      · subst hother
        by_cases hdelivered : other ∈ deliveredGroups
        · simp [hdelivered, ih]
        · simp [hdelivered, hgroup, ih]
      · split
        · simp [hgroup, hother, ih]
        · simp [hgroup, hother, ih, Ne.symm hother]

theorem serves_interest {topic : List Char} {sub : Subscription ℕ} {handler : ℕ}
    (hsub : sub ∈ subsOf interests topic)
    (hserves : Serves (subsOf interests topic) sub handler) :
    interests[handler]? = some ⟨topic, sub.group⟩ := by
  cases hgroup : sub.group with
  | none =>
    simp only [Serves, hgroup] at hserves
    rw [hserves, ← hgroup]
    exact mem_subsOf.mp hsub
  | some group =>
    simp only [Serves, hgroup] at hserves
    obtain ⟨member, hmember, rfl⟩ := hserves
    exact mem_subsOf.mp (mem_groupHandlers hmember)

theorem delivered_of_serves {called : List ℕ} (hcalled : List.Forall₂
      (Serves (subsOf interests message.topic))
      (due (subsOf interests message.topic) []) called) :
    Delivered interests message (called.map (·, message)) := by
  have hdue : ∀ sub ∈ due (subsOf interests message.topic) [],
      sub ∈ subsOf interests message.topic :=
    fun sub hsub => (due_sublist _ _).subset hsub
  exact {
    ungrouped := by
      intro handler hinterest
      have hsame := countP_eq_of_forall₂ hcalled
        (p := fun sub => sub.group = none ∧ sub.handler = handler)
        (q := fun called => called = handler) (by
          intro sub hsub called hserves
          have hcalledInterest := serves_interest (hdue sub hsub) hserves
          rw [decide_eq_decide]
          constructor
          · rintro ⟨hgroup, rfl⟩
            simpa [Serves, hgroup] using hserves
          · rintro rfl
            have hgroup : sub.group = none := by
              rw [hinterest] at hcalledInterest
              simpa using hcalledInterest.symm
            simp only [Serves, hgroup] at hserves
            exact ⟨hgroup, hserves.symm⟩)
      rw [countP_map]
      refine hsame.symm.trans ?_
      rw [countP_due_ungrouped fun sub hsub => (decide_eq_true_eq.mp hsub).1]
      have hmem : ⟨handler, none⟩ ∈ subsOf interests message.topic :=
        mem_subsOf.mpr hinterest
      apply countP_eq_one (nodup_subsOf interests message.topic).of_map hmem
      · simp
      · intro other _ hother
        obtain ⟨hgroup, hhandler⟩ := decide_eq_true_eq.mp hother
        cases other
        cases hgroup
        cases hhandler
        rfl
    grouped := by
      intro group hinterest
      have hsame := countP_eq_of_forall₂ hcalled
        (p := fun sub => sub.group = some group)
        (q := fun called => groupOf interests called = some group) (by
          intro sub hsub called hserves
          have hcalledInterest := serves_interest (hdue sub hsub) hserves
          rw [groupOf, hcalledInterest]
          rfl)
      rw [countP_map]
      refine hsame.symm.trans ?_
      rw [countP_due_grouped, if_pos]
      obtain ⟨handler, hhandler⟩ := mem_iff_getElem?.mp hinterest
      have hmem : ⟨handler, some group⟩ ∈ subsOf interests message.topic :=
        mem_subsOf.mpr hhandler
      exact ⟨not_mem_nil, _, hmem, rfl⟩
    topics := by
      intro call hcall
      obtain ⟨handler, hhandler, rfl⟩ := mem_map.mp hcall
      refine ⟨rfl, ?_⟩
      obtain ⟨sub, hsub, hserves⟩ := exists_of_forall₂ hcalled hhandler
      exact ⟨sub.group, serves_interest (hdue sub hsub) hserves⟩ }

theorem calls_memory (interests : List Interest) (pick : Pick)
    (raises : ℕ → ℕ → Bool) (hmessage : messages[record]? = some message) :
    let before := (memoryBroker interests).after raises
      (recordsFrom 0 (messages.take record))
    Serving interests before ∧
      (Adapter.memory.ready interests).calls pick raises messages record =
        (before.publish (raises record) message.topic).1.map (·, message) := by
  have hcalls :=
    (serving_memoryBroker interests).calls raises hmessage 0
  rw [Nat.zero_add] at hcalls
  rw [memory_ready]
  exact hcalls

theorem delivered_memory (interests : List Interest) (pick : Pick)
    (hmessage : messages[record]? = some message) :
    Delivered interests message ((Adapter.memory.ready interests).calls pick
      (fun _ _ => false) messages record) := by
  obtain ⟨hbefore, hcalls⟩ :=
    calls_memory interests pick (fun _ _ => false) hmessage
  obtain ⟨-, served, left, hdue, hcalled, hlast⟩ :=
    hbefore.publish (fun _ => false) message.topic
  rw [hlast.mp (raisesLast_of_returning _ _ _ _ _), append_nil] at hdue
  rw [hcalls]
  apply delivered_of_serves
  rw [hdue]
  exact hcalled

end PyFly.Messaging
