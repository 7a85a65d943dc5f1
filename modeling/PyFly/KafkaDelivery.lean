import PyFly.BrokerDelivery

/-!
# The consumers of the Kafka adapter

There is one consumer for each topic and group, so the server has no choice,
and what a consumer calls for a record depends on the records of its topic
before it.
-/

namespace PyFly.Messaging

open Library List

namespace KafkaAdapter

variable {η : Type}

/-! ## The consumers -/

def handlersOf (handlers : List (HandlerEntry η))
    (key : List Char × Option (List Char)) : List η :=
  (handlers.filter fun entry => (entry.topic, entry.group) = key).map (·.handler)

theorem get?_grouped (handlers : List (HandlerEntry η)) (key : List Char × Option (List Char)) :
    (grouped handlers).get? key = if handlersOf handlers key = [] then none
      else some (handlersOf handlers key) := by
  induction handlers using List.reverseRecOn with
  | nil => rfl
  | append_singleton handlers entry ih =>
    have hstep : grouped (handlers ++ [entry]) =
        (grouped handlers).set (entry.topic, entry.group)
          (((grouped handlers).get? (entry.topic, entry.group)).getD [] ++
            [entry.handler]) := by
      rw [grouped, foldl_append]
      rfl
    by_cases hkey : (entry.topic, entry.group) = key
    · subst hkey
      have hlast : handlersOf (handlers ++ [entry]) (entry.topic, entry.group) =
            handlersOf handlers (entry.topic, entry.group) ++ [entry.handler] := by
        simp [handlersOf]
      have hne : handlersOf handlers (entry.topic, entry.group) ++
          [entry.handler] ≠ [] := by simp
      rw [hstep, Dict.get?_set_self, ih, hlast, if_neg hne]
      split
      · rename_i hnil
        rw [hnil]
        rfl
      · rfl
    · have hsame : handlersOf (handlers ++ [entry]) key = handlersOf handlers key := by
        simp [handlersOf, hkey]
      rw [hstep, Dict.get?_set_of_ne (Ne.symm hkey), ih, hsame]

def consumersOf (handlers : List (HandlerEntry η)) : List (KafkaConsumer η) :=
  (grouped handlers).items.map fun entry => ⟨entry.1.1, entry.1.2, entry.2⟩

variable {consumer : KafkaConsumer η}

theorem mem_consumersOf {handlers : List (HandlerEntry η)} :
    consumer ∈ consumersOf handlers ↔ consumer.handlers =
          handlersOf handlers (consumer.topic, consumer.groupId) ∧
        consumer.handlers ≠ [] := by
  have hget : consumer ∈ consumersOf handlers ↔
      (grouped handlers).get? (consumer.topic, consumer.groupId) = some consumer.handlers := by
    rw [Dict.get?_eq_some_iff, consumersOf, mem_map]
    constructor
    · rintro ⟨entry, hentry, rfl⟩
      exact hentry
    · exact fun hentry => ⟨_, hentry, rfl⟩
  rw [hget, get?_grouped]
  split
  · rename_i hnil
    constructor
    · intro hnone
      cases hnone
    · rintro ⟨hhandlers, hne⟩
      exact absurd (hhandlers.trans hnil) hne
  · rename_i hne
    rw [Option.some.injEq]
    constructor
    · intro hhandlers
      exact ⟨hhandlers.symm, hhandlers ▸ hne⟩
    · exact fun h => h.1.symm

theorem nodup_consumersOf (handlers : List (HandlerEntry η)) : ((consumersOf handlers).map
      fun consumer => (consumer.topic, consumer.groupId)).Nodup := by
  rw [consumersOf, map_map]
  exact (grouped handlers).nodupKeys

theorem places_of_nodup {consumers : List (KafkaConsumer η)} (hnodup : (consumers.map
      fun consumer => (consumer.topic, consumer.groupId)).Nodup)
    {place start : ℕ} (hconsumer : (consumer, place) ∈ consumers.zipIdx start)
    {group : List Char} (hgroup : consumer.groupId = some group) :
    (consumers.zipIdx start).filterMap (fun (other, place) =>
      if other.topic = consumer.topic ∧ other.groupId = some group then
        some place
      else none) = [place] := by
  induction consumers generalizing start with
  | nil => cases hconsumer
  | cons first rest ih =>
    obtain ⟨hfirst, hrest⟩ := nodup_cons.mp hnodup
    dsimp only at hfirst
    rw [zipIdx_cons] at hconsumer ⊢
    rcases mem_cons.mp hconsumer with heq | hmem
    · obtain ⟨rfl, rfl⟩ := Prod.mk.inj heq
      have hnil : (rest.zipIdx (place + 1)).filterMap
          (fun (other, place) =>
            if other.topic = consumer.topic ∧ other.groupId = some group then
              some place
            else none) = [] := by
        rw [filterMap_eq_nil_iff]
        rintro ⟨other, number⟩ hother
        apply if_neg
        rintro ⟨htopic, hsame⟩
        apply hfirst
        rw [hgroup, ← htopic, ← hsame]
        exact mem_map_of_mem (fst_mem_of_mem_zipIdx hother)
      rw [filterMap_cons_some, hnil]
      simp [hgroup]
    · have hne : ¬ (first.topic = consumer.topic ∧ first.groupId = some group) := by
        rintro ⟨htopic, hother⟩
        apply hfirst
        rw [htopic, hother, ← hgroup]
        exact mem_map_of_mem (fst_mem_of_mem_zipIdx hmem)
      rw [filterMap_cons]
      simp only [if_neg hne]
      exact ih hrest hmem

theorem receives_of_nodup {consumers : List (KafkaConsumer η)} (hnodup : (consumers.map
      fun consumer => (consumer.topic, consumer.groupId)).Nodup) (pick : Pick)
    {place : ℕ} (hconsumer : (consumer, place) ∈ consumers.zipIdx)
    (record : ℕ × Message) :
    receives pick consumers place consumer record =
      decide (consumer.topic = record.2.topic) := by
  unfold receives
  cases hgroup : consumer.groupId with
  | none => simp
  | some group =>
    by_cases htopic : consumer.topic = record.2.topic
    · have hplaces := places_of_nodup hnodup hconsumer hgroup
      rw [htopic] at hplaces
      simp [hplaces, htopic, Nat.mod_one]
    · simp [htopic]

theorem invocations_of_nodup {adapter : KafkaAdapter η} (hnodup : (adapter.consumers.map
      fun consumer => (consumer.topic, consumer.groupId)).Nodup)
    (pick : Pick) (raises : ℕ → η → Bool) (records : List (ℕ × Message)) :
    adapter.invocations pick raises records = adapter.consumers.flatMap fun consumer =>
        consumeLoop raises consumer.handlers
          (records.filter fun record => consumer.topic = record.2.topic) := by
  have hfst : adapter.consumers = adapter.consumers.zipIdx.map Prod.fst :=
    (zipIdx_map_fst 0 adapter.consumers).symm
  conv_rhs => rw [hfst, flatMap_map]
  apply flatMap_congr
  rintro ⟨consumer, place⟩ hconsumer
  have hrecords : records.filter (receives pick adapter.consumers place consumer) =
        records.filter fun record => consumer.topic = record.2.topic :=
    filter_congr fun record _ =>
      receives_of_nodup hnodup pick hconsumer record
  dsimp only
  rw [hrecords]

/-! ## One consumer -/

theorem consumeLoop_append (raises : ℕ → η → Bool) (handlers : List η)
    (front back : List (ℕ × Message)) :
    consumeLoop raises handlers (front ++ back) = consumeLoop raises handlers front ++
        if front.any (fun record => handlers.any (raises record.1)) then []
        else consumeLoop raises handlers back := by
  induction front with
  | nil => simp [consumeLoop]
  | cons record front ih =>
    obtain ⟨number, message⟩ := record
    rw [cons_append, consumeLoop, consumeLoop, any_cons]
    cases hraises : handlers.any (raises number) with
    | true => simp only [if_true, Bool.true_or, append_nil]
    | false =>
      simp only [Bool.false_eq_true, if_false, Bool.false_or, ih, append_assoc]

theorem record_of_mem_consumeLoop {raises : ℕ → η → Bool} {handlers : List η}
    {records : List (ℕ × Message)} {invocation : Invocation η}
    (hinvocation : invocation ∈ consumeLoop raises handlers records) :
    (invocation.record, invocation.message) ∈ records := by
  induction records with
  | nil => cases hinvocation
  | cons record records ih =>
    obtain ⟨number, message⟩ := record
    rcases mem_append.mp hinvocation with hfirst | hrest
    · obtain ⟨handler, -, rfl⟩ := mem_map.mp hfirst
      exact mem_cons_self
    · split at hrest
      · cases hrest
      · exact mem_cons_of_mem _ (ih hrest)

theorem filter_consumeLoop (raises : ℕ → η → Bool) (handlers : List η)
    {front back : List (ℕ × Message)} {record : ℕ} (message : Message)
    (hfront : ∀ other ∈ front, other.1 ≠ record)
    (hback : ∀ other ∈ back, other.1 ≠ record) :
    (consumeLoop raises handlers (front ++ (record, message) :: back)).filter
        (·.record = record) =
      if front.any (fun earlier => handlers.any (raises earlier.1)) then []
      else (call (raises record) handlers).map (⟨record, ·, message⟩) := by
  have hother : ∀ records : List (ℕ × Message), (∀ other ∈ records, other.1 ≠ record) →
        (consumeLoop raises handlers records).filter (·.record = record) = [] := by
    intro records hrecords
    rw [filter_eq_nil_iff]
    intro invocation hinvocation
    simpa using hrecords _ (record_of_mem_consumeLoop hinvocation)
  have hthis : ((call (raises record) handlers).map
      (⟨record, ·, message⟩ : η → Invocation η)).filter (·.record = record) =
        (call (raises record) handlers).map (⟨record, ·, message⟩) := by
    rw [filter_eq_self]
    intro invocation hinvocation
    obtain ⟨handler, -, rfl⟩ := mem_map.mp hinvocation
    simp
  rw [consumeLoop_append, filter_append, hother front hfront, nil_append]
  split
  · rfl
  · rw [consumeLoop, filter_append, hthis]
    split
    · simp
    · rw [hother back hback, append_nil]

theorem call_returning (handlers : List η) : call (fun _ => false) handlers = handlers := by
  induction handlers with
  | nil => rfl
  | cons handler handlers ih => simp [call, ih]

end KafkaAdapter

/-! ## The adapter with numbered handlers -/

theorem foldl_subscribe_kafka (entries : List (HandlerEntry ℕ)) :
    entries.foldl MessageBroker.subscribe (.kafka {}) = .kafka { handlers := entries } := by
  induction entries using List.reverseRecOn with
  | nil => rfl
  | append_singleton entries entry ih =>
    rw [foldl_append, ih]
    rfl

theorem kafka_ready (interests : List Interest) : Adapter.kafka.ready interests = .kafka
      { handlers := entries interests
        consumers := KafkaAdapter.consumersOf (entries interests) } := by
  rw [Adapter.ready, Adapter.broker, foldl_subscribe_kafka]
  rfl

def consumed (raises : ℕ → ℕ → Bool) (messages : List Message) (record : ℕ)
    (message : Message) (consumer : KafkaConsumer ℕ) : List ℕ :=
  if consumer.topic = message.topic then
    if ((recordsFrom 0 (messages.take record)).filter fun earlier =>
        consumer.topic = earlier.2.topic).any
          fun earlier => consumer.handlers.any (raises earlier.1) then []
    else KafkaAdapter.call (raises record) consumer.handlers
  else []

variable {messages : List Message} {record : ℕ} {message : Message}

theorem recordsFrom_split (hmessage : messages[record]? = some message) :
    recordsFrom 0 messages = recordsFrom 0 (messages.take record) ++
      (record, message) :: recordsFrom (record + 1) (messages.drop (record + 1)) := by
  have hlt := (List.getElem?_eq_some_iff.mp hmessage).1
  have hsplit : messages = messages.take record ++ message :: messages.drop (record + 1) := by
    conv_lhs => rw [← take_append_drop record messages]
    congr 1
    rw [drop_eq_getElem_cons hlt]
    congr 1
    exact Option.some.inj ((List.getElem?_eq_getElem hlt).symm.trans hmessage)
  conv_lhs => rw [hsplit]
  rw [recordsFrom, zipIdx_append, map_append, zipIdx_cons, length_take_of_le hlt.le]
  simp [recordsFrom]

theorem mem_recordsFrom {start : ℕ} : (record, message) ∈ recordsFrom start messages ↔
      start ≤ record ∧ messages[record - start]? = some message := by
  rw [recordsFrom, mem_map]
  constructor
  · rintro ⟨⟨other, number⟩, hmem, heq⟩
    cases heq
    exact mk_mem_zipIdx_iff_le_and_getElem?_sub.mp hmem
  · intro h
    exact ⟨(message, record), mk_mem_zipIdx_iff_le_and_getElem?_sub.mpr h, rfl⟩

theorem filter_consumed (raises : ℕ → ℕ → Bool)
    (hmessage : messages[record]? = some message) (consumer : KafkaConsumer ℕ) :
    (KafkaAdapter.consumeLoop raises consumer.handlers
      ((recordsFrom 0 messages).filter fun record =>
        consumer.topic = record.2.topic)).filter (·.record = record) =
      (consumed raises messages record message consumer).map (⟨record, ·, message⟩) := by
  by_cases htopic : consumer.topic = message.topic
  · rw [recordsFrom_split hmessage, filter_append, filter_cons_of_pos (by simpa using htopic),
      KafkaAdapter.filter_consumeLoop, consumed, if_pos htopic]
    · split
      · rfl
      · rfl
    · rintro ⟨other, first⟩ hother
      obtain ⟨-, hfirst⟩ := mem_recordsFrom.mp (mem_filter.mp hother).1
      have hlt := (List.getElem?_eq_some_iff.mp hfirst).1
      rw [length_take] at hlt
      dsimp only
      omega
    · rintro ⟨other, later⟩ hother
      have hle := (mem_recordsFrom.mp (mem_filter.mp hother).1).1
      dsimp only
      omega
  · rw [consumed, if_neg htopic, map_nil, filter_eq_nil_iff]
    intro invocation hinvocation
    obtain ⟨hmem, htopics⟩ := mem_filter.mp (KafkaAdapter.record_of_mem_consumeLoop hinvocation)
    rw [decide_eq_true_eq]
    rintro rfl
    obtain ⟨-, hsame⟩ := mem_recordsFrom.mp hmem
    rw [Nat.sub_zero, hmessage] at hsame
    apply htopic
    rw [Option.some.inj hsame]
    simpa using htopics

theorem calls_kafka (interests : List Interest) (pick : Pick)
    (raises : ℕ → ℕ → Bool) (hmessage : messages[record]? = some message) :
    (Adapter.kafka.ready interests).calls pick raises messages record =
      ((KafkaAdapter.consumersOf (entries interests)).flatMap
        (consumed raises messages record message)).map (·, message) := by
  have hinvocations : (Adapter.kafka.ready interests).invocations pick raises
      messages = (KafkaAdapter.consumersOf (entries interests)).flatMap
        fun consumer => KafkaAdapter.consumeLoop raises consumer.handlers
          ((recordsFrom 0 messages).filter fun record =>
            consumer.topic = record.2.topic) := by
    rw [kafka_ready]
    exact KafkaAdapter.invocations_of_nodup
      (KafkaAdapter.nodup_consumersOf _) pick raises (recordsFrom 0 messages)
  rw [MessageBroker.calls, hinvocations, filter_flatMap, map_flatMap, map_flatMap]
  congr 1
  funext consumer
  rw [filter_consumed raises hmessage, map_map]
  rfl

/-! ## The contract -/

theorem mem_handlersOf {interests : List Interest}
    {key : List Char × Option (List Char)} {handler : ℕ} :
    handler ∈ KafkaAdapter.handlersOf (entries interests) key ↔
      interests[handler]? = some ⟨key.1, key.2⟩ := by
  simp only [KafkaAdapter.handlersOf, mem_map, mem_filter, decide_eq_true_eq]
  constructor
  · rintro ⟨entry, ⟨hentry, rfl⟩, rfl⟩
    exact mem_entries.mp hentry
  · intro hinterest
    exact ⟨⟨key.1, handler, key.2⟩, ⟨mem_entries.mpr hinterest, rfl⟩, rfl⟩

theorem consumers_perm (interests : List Interest) (topic : List Char) :
    ((KafkaAdapter.consumersOf (entries interests)).flatMap fun consumer =>
      if consumer.topic = topic then consumer.handlers else []).Perm
        ((subsOf interests topic).map (·.handler)) := by
  have hhandlers : ∀ consumer ∈ KafkaAdapter.consumersOf (entries interests),
      ∀ handler, handler ∈ consumer.handlers ↔
        interests[handler]? = some ⟨consumer.topic, consumer.groupId⟩ := by
    intro consumer hconsumer handler
    rw [(KafkaAdapter.mem_consumersOf.mp hconsumer).1]
    exact mem_handlersOf
  rw [perm_ext_iff_of_nodup _ (nodup_subsOf interests topic)]
  · intro handler
    simp only [mem_flatMap, mem_map]
    constructor
    · rintro ⟨consumer, hconsumer, hhandler⟩
      split at hhandler
      · rename_i htopic
        have hinterest := (hhandlers consumer hconsumer handler).mp hhandler
        rw [htopic] at hinterest
        exact ⟨⟨handler, consumer.groupId⟩, mem_subsOf.mpr hinterest, rfl⟩
      · cases hhandler
    · rintro ⟨sub, hsub, rfl⟩
      have hinterest := mem_subsOf.mp hsub
      have hmem : sub.handler ∈ KafkaAdapter.handlersOf (entries interests)
          (topic, sub.group) := mem_handlersOf.mpr hinterest
      refine ⟨⟨topic, sub.group, _⟩, KafkaAdapter.mem_consumersOf.mpr
        ⟨rfl, ne_nil_of_mem hmem⟩, ?_⟩
      rw [if_pos rfl]
      exact hmem
  · rw [nodup_flatMap]
    constructor
    · intro consumer hconsumer
      split
      · rw [(KafkaAdapter.mem_consumersOf.mp hconsumer).1]
        exact (nodup_entries interests).sublist (filter_sublist.map _)
      · exact nodup_nil
    · have hpairwise := pairwise_map.mp (KafkaAdapter.nodup_consumersOf (entries interests))
      apply hpairwise.imp_of_mem
      intro first second hfirst hsecond hne handler hone htwo
      dsimp only at hone htwo
      split at hone
      · split at htwo
        · apply hne
          have hboth := ((hhandlers first hfirst handler).mp hone).symm.trans
            ((hhandlers second hsecond handler).mp htwo)
          simpa using hboth
        · cases htwo
      · cases hone

theorem Delivered.perm {interests : List Interest} {calls others : List (ℕ × Message)}
    (hcalls : Delivered interests message calls) (hperm : calls.Perm others) :
    Delivered interests message others where
  ungrouped handler hinterest := by
    rw [← hperm.countP_eq]
    exact hcalls.ungrouped handler hinterest
  grouped group hinterest := by
    rw [← hperm.countP_eq]
    exact hcalls.grouped group hinterest
  topics call hcall := hcalls.topics call (hperm.mem_iff.mpr hcall)

theorem delivered_all_iff (interests : List Interest) (message : Message) :
    Delivered interests message (((subsOf interests message.topic).map (·.handler)).map
          (·, message)) ↔
      Adapter.kafka.Suits interests message.topic := by
  have hmem : ∀ handler, handler ∈ (subsOf interests message.topic).map (·.handler) ↔
        ∃ group, interests[handler]? = some ⟨message.topic, group⟩ := by
    intro handler
    rw [mem_map]
    constructor
    · rintro ⟨sub, hsub, rfl⟩
      exact ⟨sub.group, mem_subsOf.mp hsub⟩
    · rintro ⟨group, hinterest⟩
      exact ⟨⟨handler, group⟩, mem_subsOf.mpr hinterest, rfl⟩
  have hgroup : ∀ (handler : ℕ) (group : List Char),
      interests[handler]? = some ⟨message.topic, some group⟩ →
        groupOf interests handler = some group := by
    intro handler group hinterest
    rw [groupOf, hinterest]
    rfl
  constructor
  · intro hdelivered first second group hfirst hsecond
    have hone := hdelivered.grouped group (mem_of_getElem? hfirst)
    rw [countP_map] at hone
    apply eq_of_countP_eq_one hone ((hmem first).mpr ⟨_, hfirst⟩) _
      ((hmem second).mpr ⟨_, hsecond⟩)
    · simpa using hgroup second group hsecond
    · simpa using hgroup first group hfirst
  · intro hsuits
    exact {
      ungrouped := by
        intro handler hinterest
        rw [countP_map]
        apply countP_eq_one (nodup_subsOf interests message.topic)
          ((hmem handler).mpr ⟨none, hinterest⟩)
        · simp
        · intro other _ hother
          simpa using hother
      grouped := by
        intro group hinterest
        obtain ⟨handler, hhandler⟩ := mem_iff_getElem?.mp hinterest
        rw [countP_map]
        apply countP_eq_one (nodup_subsOf interests message.topic)
          ((hmem handler).mpr ⟨_, hhandler⟩)
        · simpa using hgroup handler group hhandler
        · intro other hother hsome
          obtain ⟨name, hname⟩ := (hmem other).mp hother
          apply hsuits other handler group _ hhandler
          have heq : name = some group := by
            simpa [groupOf, hname] using hsome
          rw [hname, heq]
      topics := by
        intro call hcall
        obtain ⟨handler, hhandler, rfl⟩ := mem_map.mp hcall
        exact ⟨rfl, (hmem handler).mp hhandler⟩ }

theorem delivered_kafka_iff (interests : List Interest) (pick : Pick)
    (hmessage : messages[record]? = some message) :
    Delivered interests message ((Adapter.kafka.ready interests).calls pick
      (fun _ _ => false) messages record) ↔
      Adapter.kafka.Suits interests message.topic := by
  have hcalled : consumed (fun _ _ => false) messages record message = fun consumer =>
        if consumer.topic = message.topic then consumer.handlers else [] := by
    funext consumer
    simp [consumed, KafkaAdapter.call_returning]
  have hperm := (consumers_perm interests message.topic).map (·, message)
  rw [calls_kafka interests pick _ hmessage, ← delivered_all_iff, hcalled]
  exact ⟨fun h => h.perm hperm, fun h => h.perm hperm.symm⟩

end PyFly.Messaging
