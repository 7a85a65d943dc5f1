import PyFly.RabbitMQDelivery

/-!
# Handlers which raise

A handler that raises ends the publication of its message in memory and the
consumer of its topic and group in Kafka, while RabbitMQ only rejects the
message.
-/

namespace PyFly.Messaging

open Library List

structure Isolated (interests : List Interest) (message : Message)
    (undisturbed calls : List (ℕ × Message)) : Prop where
  ungrouped : ∀ handler : ℕ, interests[handler]? = some ⟨message.topic, none⟩ →
      (∃ call ∈ undisturbed, call.1 = handler) → ∃ call ∈ calls, call.1 = handler
  grouped : ∀ group, ⟨message.topic, some group⟩ ∈ interests →
    (∃ call ∈ undisturbed, groupOf interests call.1 = some group) →
      ∃ call ∈ calls, groupOf interests call.1 = some group

def Adapter.RaisesHarmlessly (adapter : Adapter) (interests : List Interest)
    (raises : ℕ → ℕ → Bool) (messages : List Message) (record : ℕ)
    (message : Message) : Prop :=
  match adapter with
  | .memory =>
    RaisesLast (raises record) message.topic
      (subsOf interests message.topic) (subsOf interests message.topic) []
        ((memoryBroker interests).after raises (recordsFrom 0 (messages.take record)))
  | .kafka => ∀ (handler : ℕ) group, interests[handler]? = some ⟨message.topic, group⟩ →
        raises record handler = true → (∀ (later : ℕ) other, record < later →
            messages[later]? = some other → other.topic ≠ message.topic) ∧
          (group = none → ∀ other : ℕ, handler < other →
            interests[other]? ≠ some ⟨message.topic, none⟩)
  | .rabbitMQ => True

/-! ## The broker in memory -/

theorem Delivered.exists_ungrouped {interests : List Interest}
    {message : Message} {calls : List (ℕ × Message)}
    (hcalls : Delivered interests message calls) {handler : ℕ}
    (hinterest : interests[handler]? = some ⟨message.topic, none⟩) :
    ∃ call ∈ calls, call.1 = handler := by
  obtain ⟨call, hmem, hfound⟩ :=
    exists_of_countP_eq_one (hcalls.ungrouped handler hinterest)
  exact ⟨call, hmem, decide_eq_true_eq.mp hfound⟩

theorem Delivered.exists_grouped {interests : List Interest}
    {message : Message} {calls : List (ℕ × Message)}
    (hcalls : Delivered interests message calls) {group : List Char}
    (hinterest : ⟨message.topic, some group⟩ ∈ interests) :
    ∃ call ∈ calls, groupOf interests call.1 = some group := by
  obtain ⟨call, hmem, hfound⟩ :=
    exists_of_countP_eq_one (hcalls.grouped group hinterest)
  exact ⟨call, hmem, decide_eq_true_eq.mp hfound⟩

theorem left_eq_nil {interests : List Interest} {message : Message}
    {served left : List (Subscription ℕ)} {called : List ℕ}
    {undisturbed : List (ℕ × Message)}
    (hdue : due (subsOf interests message.topic) [] = served ++ left)
    (hcalled : List.Forall₂ (Serves (subsOf interests message.topic)) served called)
    (hundisturbed : Delivered interests message undisturbed)
    (hisolated : Isolated interests message undisturbed
      (called.map (·, message))) : left = [] := by
  by_contra hne
  obtain ⟨sub, hsub⟩ := exists_mem_of_ne_nil left hne
  have hmem : ∀ other ∈ served ++ left, other ∈ subsOf interests message.topic := by
    intro other hother
    rw [← hdue] at hother
    exact (due_sublist _ _).subset hother
  have hinterest := mem_subsOf.mp (hmem sub (mem_append_right _ hsub))
  have hdisjoint : ∀ other ∈ served, other ≠ sub := by
    have hnodup : (served ++ left).Nodup := by
      rw [← hdue]
      exact (nodup_subsOf interests message.topic).of_map.sublist (due_sublist _ _)
    intro other hother heq
    exact disjoint_of_nodup_append hnodup (heq ▸ hother) hsub
  cases hgroup : sub.group with
  | none =>
    rw [hgroup] at hinterest
    obtain ⟨call, hcall, hhandler⟩ := hisolated.ungrouped sub.handler
      hinterest (hundisturbed.exists_ungrouped hinterest)
    obtain ⟨handler, hmemCalled, rfl⟩ := mem_map.mp hcall
    obtain ⟨other, hother, hserves⟩ := exists_of_forall₂ hcalled hmemCalled
    have hotherInterest := serves_interest (hmem other (mem_append_left _ hother)) hserves
    dsimp only at hhandler
    rw [hhandler, hinterest] at hotherInterest
    have hotherGroup : other.group = none := by
      simpa using hotherInterest.symm
    simp only [Serves, hotherGroup] at hserves
    apply hdisjoint other hother
    cases other
    cases sub
    simp_all
  | some group =>
    rw [hgroup] at hinterest
    have hgroupMem := mem_of_getElem? hinterest
    obtain ⟨call, hcall, hcallGroup⟩ := hisolated.grouped group hgroupMem
      (hundisturbed.exists_grouped hgroupMem)
    obtain ⟨handler, hmemCalled, rfl⟩ := mem_map.mp hcall
    obtain ⟨other, hother, hserves⟩ := exists_of_forall₂ hcalled hmemCalled
    have hotherInterest := serves_interest (hmem other (mem_append_left _ hother)) hserves
    have hotherGroup : other.group = some group := by
      simpa [groupOf, hotherInterest] using hcallGroup
    have hcount := countP_due_grouped group (subsOf interests message.topic) []
    rw [if_pos ⟨not_mem_nil, sub, hmem sub (mem_append_right _ hsub), hgroup⟩, hdue] at hcount
    apply hdisjoint other hother
    exact eq_of_countP_eq_one hcount (mem_append_left _ hother)
      (decide_eq_true hotherGroup) (mem_append_right _ hsub)
      (decide_eq_true hgroup)

theorem isolated_memory_iff (interests : List Interest) (pick : Pick)
    (raises : ℕ → ℕ → Bool) {messages : List Message} {record : ℕ}
    {message : Message} (hmessage : messages[record]? = some message) :
    Isolated interests message
        ((Adapter.memory.ready interests).calls pick (fun _ _ => false) messages record)
        ((Adapter.memory.ready interests).calls pick raises messages record) ↔
      Adapter.memory.RaisesHarmlessly interests raises messages record
        message := by
  obtain ⟨hbefore, hcalls⟩ := calls_memory interests pick raises hmessage
  obtain ⟨-, served, left, hdue, hcalled, hlast⟩ :=
    hbefore.publish (raises record) message.topic
  rw [hcalls]
  constructor
  · intro hisolated
    exact hlast.mpr (left_eq_nil hdue hcalled
      (delivered_memory interests pick hmessage) hisolated)
  · intro hharmless
    rw [hlast.mp hharmless, append_nil] at hdue
    rw [← hdue] at hcalled
    have hdelivered := delivered_of_serves hcalled
    exact {
      ungrouped := fun _ hinterest _ => hdelivered.exists_ungrouped hinterest
      grouped := fun _ hinterest _ => hdelivered.exists_grouped hinterest }

/-! ## Kafka -/

theorem mem_call {raises : ℕ → Bool} {handlers : List ℕ}
    (hsorted : handlers.Pairwise (· < ·)) {handler : ℕ} :
    handler ∈ KafkaAdapter.call raises handlers ↔ handler ∈ handlers ∧
      ∀ other ∈ handlers, other < handler → raises other = false := by
  induction handlers with
  | nil => simp [KafkaAdapter.call]
  | cons first rest ih =>
    obtain ⟨hfirst, hrest⟩ := pairwise_cons.mp hsorted
    have hih := ih hrest
    rw [KafkaAdapter.call, mem_cons, mem_cons]
    constructor
    · rintro (rfl | hmem)
      · refine ⟨.inl rfl, fun other hother hlt => ?_⟩
        rcases mem_cons.mp hother with rfl | hother
        · exact absurd hlt (Nat.lt_irrefl _)
        · exact absurd hlt (Nat.lt_asymm (hfirst other hother))
      · split at hmem
        · cases hmem
        · rename_i hraises
          obtain ⟨hhandler, hall⟩ := hih.mp hmem
          refine ⟨.inr hhandler, fun other hother hlt => ?_⟩
          rcases mem_cons.mp hother with rfl | hother
          · exact Bool.eq_false_iff.mpr hraises
          · exact hall other hother hlt
    · rintro ⟨rfl | hhandler, hall⟩
      · exact .inl rfl
      · have hnot := hall first mem_cons_self (hfirst _ hhandler)
        rw [hnot]
        exact .inr (hih.mpr ⟨hhandler, fun other hother =>
          hall other (mem_cons_of_mem _ hother)⟩)

theorem sorted_handlersOf (interests : List Interest) (key : List Char × Option (List Char)) :
    (KafkaAdapter.handlersOf (entries interests) key).Pairwise (· < ·) := by
  have hnumbers : (entries interests).map (·.handler) = interests.zipIdx.map Prod.snd := by
    rw [entries, map_map]
    rfl
  have hsorted : ((entries interests).map (·.handler)).Pairwise (· < ·) := by
    rw [hnumbers, zipIdx_map_snd]
    exact pairwise_lt_range'
  exact hsorted.sublist (filter_sublist.map _)

section Kafka

variable {interests : List Interest} {raises : ℕ → ℕ → Bool}
  {messages : List Message} {record : ℕ} {message : Message}

theorem mem_calls_kafka (pick : Pick)
    (hmessage : messages[record]? = some message) {call : ℕ × Message} :
    call ∈ (Adapter.kafka.ready interests).calls pick raises messages record ↔
      call.2 = message ∧ ∃ group, interests[call.1]? = some ⟨message.topic, group⟩ ∧
        call.1 ∈ KafkaAdapter.call (raises record)
          (KafkaAdapter.handlersOf (entries interests) (message.topic, group)) ∧
        ∀ (earlier : ℕ) other, earlier < record →
          messages[earlier]? = some other → other.topic = message.topic →
            ∀ handler : ℕ, interests[handler]? = some ⟨message.topic, group⟩ →
              raises earlier handler = false := by
  obtain ⟨handler, received⟩ := call
  rw [calls_kafka interests pick raises hmessage, mem_map]
  constructor
  · rintro ⟨called, hcalled, heq⟩
    obtain ⟨rfl, rfl⟩ := Prod.mk.inj heq
    obtain ⟨consumer, hconsumer, hconsumed⟩ := mem_flatMap.mp hcalled
    unfold consumed at hconsumed
    split at hconsumed
    · rename_i htopic
      have hhandlers := (KafkaAdapter.mem_consumersOf.mp hconsumer).1
      split at hconsumed
      · cases hconsumed
      · rename_i hquiet
        rw [hhandlers, htopic] at hconsumed hquiet
        have hmem := (mem_call (sorted_handlersOf interests _)).mp hconsumed
        refine ⟨rfl, consumer.groupId, mem_handlersOf.mp hmem.1, hconsumed, ?_⟩
        intro earlier other hlt hother htopics failing hfailing
        by_contra hraises
        apply hquiet
        rw [any_eq_true]
        refine ⟨(earlier, other), mem_filter.mpr ⟨?_, ?_⟩, ?_⟩
        · rw [mem_recordsFrom, Nat.sub_zero, List.getElem?_take_of_lt hlt]
          exact ⟨Nat.zero_le _, hother⟩
        · exact decide_eq_true htopics.symm
        · rw [any_eq_true]
          exact ⟨failing, mem_handlersOf.mpr hfailing, by simpa using hraises⟩
    · cases hconsumed
  · rintro ⟨rfl, group, hinterest, hcall, hquiet⟩
    refine ⟨handler, mem_flatMap.mpr ⟨⟨received.topic, group,
      KafkaAdapter.handlersOf (entries interests) (received.topic, group)⟩,
      ?_, ?_⟩, rfl⟩
    · have hmem := (mem_call (sorted_handlersOf interests _)).mp hcall
      exact KafkaAdapter.mem_consumersOf.mpr ⟨rfl, ne_nil_of_mem hmem.1⟩
    · unfold consumed
      rw [if_pos rfl, if_neg]
      · exact hcall
      · rw [any_eq_true]
        rintro ⟨⟨earlier, other⟩, hother, hany⟩
        obtain ⟨hmem, htopic⟩ := mem_filter.mp hother
        obtain ⟨-, hfirst⟩ := mem_recordsFrom.mp hmem
        obtain ⟨failing, hfailing, hraises⟩ := any_eq_true.mp hany
        have hlt := (List.getElem?_eq_some_iff.mp hfirst).1
        rw [length_take] at hlt
        rw [Nat.sub_zero, List.getElem?_take_of_lt (by omega)] at hfirst
        have hnot := hquiet earlier other (by omega) hfirst
          (decide_eq_true_eq.mp htopic).symm failing (mem_handlersOf.mp hfailing)
        rw [hraises] at hnot
        cases hnot

theorem mem_undisturbed_kafka (pick : Pick)
    (hmessage : messages[record]? = some message) {handler : ℕ}
    {group : Option (List Char)}
    (hinterest : interests[handler]? = some ⟨message.topic, group⟩) :
    (handler, message) ∈ (Adapter.kafka.ready interests).calls pick
      (fun _ _ => false) messages record := by
  rw [mem_calls_kafka pick hmessage]
  refine ⟨rfl, group, hinterest, ?_, fun _ _ _ _ _ _ _ => rfl⟩
  rw [KafkaAdapter.call_returning]
  exact mem_handlersOf.mpr hinterest

theorem quiet_of_isolated {pick : Pick} (hmessage : messages[record]? = some message)
    (hisolated : Isolated interests message
      ((Adapter.kafka.ready interests).calls pick (fun _ _ => false) messages record)
      ((Adapter.kafka.ready interests).calls pick raises messages record))
    {handler : ℕ} {group : Option (List Char)}
    (hinterest : interests[handler]? = some ⟨message.topic, group⟩) :
    ∃ called, interests[called]? = some ⟨message.topic, group⟩ ∧
      (group = none → called = handler) ∧ called ∈ KafkaAdapter.call (raises record)
          (KafkaAdapter.handlersOf (entries interests) (message.topic, group)) ∧
        ∀ (earlier : ℕ) other, earlier < record →
          messages[earlier]? = some other → other.topic = message.topic →
            ∀ handler : ℕ, interests[handler]? = some ⟨message.topic, group⟩ →
              raises earlier handler = false := by
  have hundisturbed := mem_undisturbed_kafka pick hmessage hinterest
  cases group with
  | none =>
    obtain ⟨call, hcall, rfl⟩ := hisolated.ungrouped handler hinterest ⟨_, hundisturbed, rfl⟩
    obtain ⟨-, name, hname, hcalled, hquiet⟩ :=
      (mem_calls_kafka pick hmessage).mp hcall
    rw [hinterest] at hname
    obtain ⟨-, rfl⟩ := Interest.mk.inj (Option.some.inj hname)
    exact ⟨call.1, hinterest, fun _ => rfl, hcalled, hquiet⟩
  | some group =>
    have hgroup : groupOf interests handler = some group := by
      rw [groupOf, hinterest]
      rfl
    obtain ⟨call, hcall, hcallGroup⟩ := hisolated.grouped group
      (mem_of_getElem? hinterest) ⟨_, hundisturbed, hgroup⟩
    obtain ⟨-, name, hname, hcalled, hquiet⟩ :=
      (mem_calls_kafka pick hmessage).mp hcall
    have hsame : name = some group := by
      simpa [groupOf, hname] using hcallGroup
    rw [hsame] at hname hcalled hquiet
    exact ⟨call.1, hname, by simp, hcalled, hquiet⟩

end Kafka

theorem isolated_kafka_iff (interests : List Interest)
    (raises : ℕ → ℕ → Bool) (messages : List Message) :
    (∀ pick record message, messages[record]? = some message → Isolated interests message
        ((Adapter.kafka.ready interests).calls pick (fun _ _ => false) messages record)
        ((Adapter.kafka.ready interests).calls pick raises messages record)) ↔
      ∀ record message, messages[record]? = some message →
        Adapter.kafka.RaisesHarmlessly interests raises messages record
          message := by
  constructor
  · intro hall record message hmessage handler group hinterest hraises
    constructor
    · intro later other hlt hother htopic
      rw [← htopic] at hinterest
      obtain ⟨-, -, -, -, hquiet⟩ := quiet_of_isolated hother
        (hall (fun _ _ => 0) later other hother) hinterest
      have hnot := hquiet record message hlt hmessage htopic.symm handler hinterest
      rw [hraises] at hnot
      cases hnot
    · rintro rfl other hlt hother
      obtain ⟨called, -, hsame, hcalled, -⟩ := quiet_of_isolated hmessage
        (hall (fun _ _ => 0) record message hmessage) hother
      rw [hsame rfl] at hcalled
      have hnot := ((mem_call (sorted_handlersOf interests _)).mp hcalled).2
        handler (mem_handlersOf.mpr hinterest) hlt
      rw [hraises] at hnot
      cases hnot
  · intro hharmless pick record message hmessage
    have hquiet : ∀ (group : Option (List Char)) (earlier : ℕ) other,
        earlier < record → messages[earlier]? = some other →
          other.topic = message.topic → ∀ handler : ℕ,
            interests[handler]? = some ⟨message.topic, group⟩ →
              raises earlier handler = false := by
      intro group earlier other hlt hother htopic handler hinterest
      by_contra hraises
      rw [← htopic] at hinterest
      exact (hharmless earlier other hother handler group hinterest
        (by simpa using hraises)).1 record message hlt hmessage htopic.symm
    exact {
      ungrouped := by
        intro handler hinterest _
        refine ⟨(handler, message), (mem_calls_kafka pick hmessage).mpr
          ⟨rfl, none, hinterest, ?_, hquiet none⟩, rfl⟩
        rw [mem_call (sorted_handlersOf interests _)]
        refine ⟨mem_handlersOf.mpr hinterest, fun other hother hlt => ?_⟩
        by_contra hraises
        exact (hharmless record message hmessage other none
          (mem_handlersOf.mp hother) (by simpa using hraises)).2 rfl handler hlt
            hinterest
      grouped := by
        intro group hinterest _
        obtain ⟨handler, hhandler⟩ := mem_iff_getElem?.mp hinterest
        have hmem : handler ∈ KafkaAdapter.handlersOf (entries interests)
            (message.topic, some group) := mem_handlersOf.mpr hhandler
        obtain ⟨first, hfirst, hcalled⟩ : ∃ first,
            first ∈ KafkaAdapter.handlersOf (entries interests)
              (message.topic, some group) ∧
            first ∈ KafkaAdapter.call (raises record)
              (KafkaAdapter.handlersOf (entries interests)
                (message.topic, some group)) := by
          cases hhandlers : KafkaAdapter.handlersOf (entries interests)
              (message.topic, some group) with
          | nil => simp [hhandlers] at hmem
          | cons first rest =>
            exact ⟨first, mem_cons_self, mem_cons_self⟩
        have hfirstInterest := mem_handlersOf.mp hfirst
        refine ⟨(first, message), (mem_calls_kafka pick hmessage).mpr
          ⟨rfl, some group, hfirstInterest, hcalled, hquiet _⟩, ?_⟩
        rw [groupOf, hfirstInterest]
        rfl }

/-- The failures of handlers are isolated in all messages exactly when no
handler raises where another call of its message or topic is still to come. -/
theorem raisesIsolated_iff (adapter : Adapter) (interests : List Interest)
    (raises : ℕ → ℕ → Bool) (messages : List Message) :
    (∀ pick record message, messages[record]? = some message → Isolated interests message
        ((adapter.ready interests).calls pick (fun _ _ => false) messages record)
        ((adapter.ready interests).calls pick raises messages record)) ↔
      ∀ record message, messages[record]? = some message →
        adapter.RaisesHarmlessly interests raises messages record message := by
  cases adapter with
  | memory =>
    constructor
    · intro hall record message hmessage
      exact (isolated_memory_iff interests (fun _ _ => 0) raises
        hmessage).mp (hall _ record message hmessage)
    · intro hharmless pick record message hmessage
      exact (isolated_memory_iff interests pick raises hmessage).mpr
        (hharmless record message hmessage)
  | kafka => exact isolated_kafka_iff interests raises messages
  | rabbitMQ =>
    apply iff_of_true
    · intro pick record message hmessage
      rw [calls_rabbitMQ interests pick raises hmessage,
        calls_rabbitMQ interests pick _ hmessage]
      exact ⟨fun _ _ h => h, fun _ _ h => h⟩
    · intro record message _
      trivial

def twoMessages : List Message :=
  [⟨['t'], [], none, []⟩, ⟨['t'], [], none, []⟩]

/-- A handler that raises once ends the consumer of its group. -/
theorem not_isolated_worker : ¬ ∀ record message, twoMessages[record]? = some message →
      Isolated [⟨['t'], some ['w']⟩] message
        ((Adapter.kafka.ready [⟨['t'], some ['w']⟩]).calls (fun _ _ => 0)
          (fun _ _ => false) twoMessages record)
        ((Adapter.kafka.ready [⟨['t'], some ['w']⟩]).calls (fun _ _ => 0)
          (fun record _ => record = 0) twoMessages record) := by
  intro h
  have hsecond := (h 1 _ rfl).grouped ['w'] mem_cons_self
    ⟨(0, ⟨['t'], [], none, []⟩), by decide, rfl⟩
  revert hsecond
  decide

end PyFly.Messaging
