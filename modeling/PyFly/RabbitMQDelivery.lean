import PyFly.KafkaDelivery

/-!
# The queues of the RabbitMQ adapter

Every handler has a consumer on the queue named by its group, which takes the
topic of its messages from the handler.
-/

namespace PyFly.Messaging

open Library List

/-! ## The consumers -/

theorem foldl_subscribe_rabbitMQ (entries : List (HandlerEntry ℕ)) :
    entries.foldl MessageBroker.subscribe (.rabbitMQ {}) =
      .rabbitMQ { handlers := entries } := by
  induction entries using List.reverseRecOn with
  | nil => rfl
  | append_singleton entries entry ih =>
    rw [foldl_append, ih]
    rfl

def queueConsumers (interests : List Interest) : List (RabbitMQConsumer ℕ) :=
  (entries interests).map fun entry =>
    ⟨RabbitMQAdapter.queueName entry.topic entry.group, entry.topic, entry.handler⟩

theorem rabbitMQ_ready (interests : List Interest) :
    Adapter.rabbitMQ.ready interests = .rabbitMQ
      { handlers := entries interests
        consumers := queueConsumers interests } := by
  rw [Adapter.ready, Adapter.broker, foldl_subscribe_rabbitMQ]
  rfl

variable {consumer : RabbitMQConsumer ℕ}

theorem mem_queueConsumers {interests : List Interest} : consumer ∈ queueConsumers interests ↔
      ∃ group, interests[consumer.handler]? = some ⟨consumer.topic, group⟩ ∧
        consumer.queue = RabbitMQAdapter.queueName consumer.topic group := by
  rw [queueConsumers, mem_map]
  constructor
  · rintro ⟨entry, hentry, rfl⟩
    exact ⟨entry.group, mem_entries.mp hentry, rfl⟩
  · rintro ⟨group, hinterest, hqueue⟩
    exact ⟨⟨consumer.topic, consumer.handler, group⟩,
      mem_entries.mpr hinterest, by rw [← hqueue]⟩

variable {queue : List Char}

theorem mem_boundQueues {interests : List Interest} {topic : List Char} :
    queue ∈ RabbitMQAdapter.boundQueues (queueConsumers interests) topic ↔
      ∃ (handler : ℕ) (group : Option (List Char)), interests[handler]? = some ⟨topic, group⟩ ∧
          queue = RabbitMQAdapter.queueName topic group := by
  rw [RabbitMQAdapter.boundQueues, mem_dedup, mem_map]
  constructor
  · rintro ⟨consumer, hconsumer, rfl⟩
    obtain ⟨hmem, htopic⟩ := mem_filter.mp hconsumer
    obtain ⟨group, hinterest, hqueue⟩ := mem_queueConsumers.mp hmem
    rw [decide_eq_true_eq] at htopic
    rw [htopic] at hinterest hqueue
    exact ⟨consumer.handler, group, hinterest, hqueue⟩
  · rintro ⟨handler, group, hinterest, rfl⟩
    refine ⟨⟨RabbitMQAdapter.queueName topic group, topic, handler⟩,
      mem_filter.mpr ⟨mem_queueConsumers.mpr ⟨group, hinterest, rfl⟩, ?_⟩,
      rfl⟩
    exact decide_eq_true rfl

variable {pick : Pick}

theorem consumerOf_eq_some {interests : List Interest} {record : ℕ}
    (hconsumer : RabbitMQAdapter.consumerOf pick (queueConsumers interests)
      record queue = some consumer) :
    consumer.queue = queue ∧ ∃ group,
      interests[consumer.handler]? = some ⟨consumer.topic, group⟩ ∧
        queue = RabbitMQAdapter.queueName consumer.topic group := by
  obtain ⟨hmem, hqueue⟩ := mem_filter.mp (mem_of_getElem? hconsumer)
  rw [decide_eq_true_eq] at hqueue
  obtain ⟨group, hinterest, hname⟩ := mem_queueConsumers.mp hmem
  exact ⟨hqueue, group, hinterest, hqueue ▸ hname⟩

theorem exists_consumerOf (pick : Pick) {interests : List Interest}
    (record : ℕ) {topic : List Char}
    (hqueue : queue ∈ RabbitMQAdapter.boundQueues (queueConsumers interests) topic) :
    ∃ consumer, RabbitMQAdapter.consumerOf pick (queueConsumers interests)
      record queue = some consumer := by
  obtain ⟨handler, group, hinterest, rfl⟩ := mem_boundQueues.mp hqueue
  have hmem : ⟨RabbitMQAdapter.queueName topic group, topic, handler⟩ ∈
      (queueConsumers interests).filter fun consumer =>
        consumer.queue = RabbitMQAdapter.queueName topic group :=
    mem_filter.mpr ⟨mem_queueConsumers.mpr ⟨group, hinterest, rfl⟩, decide_eq_true rfl⟩
  have hpos := length_pos_of_mem hmem
  exact ⟨_, List.getElem?_eq_getElem (Nat.mod_lt _ hpos)⟩

theorem exists_pick {interests : List Interest}
    (hconsumer : consumer ∈ queueConsumers interests) :
    ∃ pick : Pick, ∀ record, RabbitMQAdapter.consumerOf pick
      (queueConsumers interests) record consumer.queue = some consumer := by
  have hmem : consumer ∈ (queueConsumers interests).filter fun other =>
      other.queue = consumer.queue :=
    mem_filter.mpr ⟨hconsumer, decide_eq_true rfl⟩
  obtain ⟨place, hplace⟩ := mem_iff_getElem?.mp hmem
  refine ⟨fun _ _ => place, fun record => ?_⟩
  have hlt := (List.getElem?_eq_some_iff.mp hplace).1
  simp only [RabbitMQAdapter.consumerOf, Nat.mod_eq_of_lt hlt, hplace]

def handled (pick : Pick) (interests : List Interest) (record : ℕ)
    (message : Message) : List (Invocation ℕ) :=
  (RabbitMQAdapter.boundQueues (queueConsumers interests) message.topic).filterMap fun queue =>
      (RabbitMQAdapter.consumerOf pick (queueConsumers interests) record
        queue).map fun consumer =>
          RabbitMQAdapter.onMessage consumer record message

theorem record_of_mem_handled {interests : List Interest} {record : ℕ}
    {message : Message} {invocation : Invocation ℕ}
    (hinvocation : invocation ∈ handled pick interests record message) :
    invocation.record = record := by
  obtain ⟨queue, -, hsome⟩ := mem_filterMap.mp hinvocation
  obtain ⟨consumer, -, rfl⟩ := Option.map_eq_some_iff.mp hsome
  rfl

theorem filter_handled_of_ne {interests : List Interest} {record : ℕ}
    {records : List (ℕ × Message)}
    (hrecords : ∀ other ∈ records, other.1 ≠ record) :
    (records.flatMap fun (number, message) =>
      handled pick interests number message).filter (·.record = record) = [] := by
  rw [filter_eq_nil_iff]
  intro invocation hinvocation
  obtain ⟨⟨number, message⟩, hmem, hhandled⟩ := mem_flatMap.mp hinvocation
  rw [record_of_mem_handled hhandled]
  simpa using hrecords _ hmem

theorem calls_rabbitMQ (interests : List Interest) (pick : Pick)
    (raises : ℕ → ℕ → Bool) {messages : List Message} {record : ℕ}
    {message : Message} (hmessage : messages[record]? = some message) :
    (Adapter.rabbitMQ.ready interests).calls pick raises messages record =
      (RabbitMQAdapter.boundQueues (queueConsumers interests)
        message.topic).filterMap fun queue =>
          (RabbitMQAdapter.consumerOf pick (queueConsumers interests) record
            queue).map fun consumer => (consumer.handler,
              { message with topic := consumer.topic, key := none }) := by
  have hinvocations : (Adapter.rabbitMQ.ready interests).invocations pick raises
      messages = (recordsFrom 0 messages).flatMap fun (number, message) =>
        handled pick interests number message := by
    rw [rabbitMQ_ready]
    rfl
  have hfront : ∀ other ∈ recordsFrom 0 (messages.take record), other.1 ≠ record := by
    rintro ⟨other, first⟩ hother
    obtain ⟨-, hfirst⟩ := mem_recordsFrom.mp hother
    have hlt := (List.getElem?_eq_some_iff.mp hfirst).1
    rw [length_take] at hlt
    dsimp only
    omega
  have hback : ∀ other ∈ recordsFrom (record + 1)
      (messages.drop (record + 1)), other.1 ≠ record := by
    rintro ⟨other, later⟩ hother
    have hle := (mem_recordsFrom.mp hother).1
    dsimp only
    omega
  have hthis : (handled pick interests record message).filter
      (·.record = record) = handled pick interests record message := by
    rw [filter_eq_self]
    intro invocation hinvocation
    exact decide_eq_true (record_of_mem_handled hinvocation)
  rw [MessageBroker.calls, hinvocations, recordsFrom_split hmessage,
    flatMap_append, flatMap_cons, filter_append,
    filter_append, filter_handled_of_ne hfront,
    filter_handled_of_ne hback, hthis, nil_append, append_nil,
    handled, map_filterMap]
  congr 1
  funext queue
  rw [Option.map_map]
  rfl

section Contract

variable {interests : List Interest} {messages : List Message} {record : ℕ}
  {message : Message}

theorem mem_calls_rabbitMQ {pick : Pick} {raises : ℕ → ℕ → Bool}
    (hmessage : messages[record]? = some message) {call : ℕ × Message} :
    call ∈ (Adapter.rabbitMQ.ready interests).calls pick raises messages record ↔
      ∃ queue consumer, queue ∈ RabbitMQAdapter.boundQueues
          (queueConsumers interests) message.topic ∧
        RabbitMQAdapter.consumerOf pick (queueConsumers interests) record
          queue = some consumer ∧
        call = (consumer.handler, { message with topic := consumer.topic, key := none }) := by
  rw [calls_rabbitMQ interests pick raises hmessage, mem_filterMap]
  constructor
  · rintro ⟨queue, hqueue, hsome⟩
    obtain ⟨consumer, hconsumer, rfl⟩ := Option.map_eq_some_iff.mp hsome
    exact ⟨queue, consumer, hqueue, hconsumer, rfl⟩
  · rintro ⟨queue, consumer, hqueue, hconsumer, rfl⟩
    exact ⟨queue, hqueue, by rw [hconsumer]; rfl⟩

theorem countP_calls_rabbitMQ (pick : Pick) (raises : ℕ → ℕ → Bool)
    (hmessage : messages[record]? = some message) (p : ℕ → Bool) :
    ((Adapter.rabbitMQ.ready interests).calls pick raises messages
        record).countP (fun call => p call.1) =
      (RabbitMQAdapter.boundQueues (queueConsumers interests) message.topic).countP fun queue =>
          (RabbitMQAdapter.consumerOf pick (queueConsumers interests) record
            queue).any fun consumer => p consumer.handler := by
  rw [calls_rabbitMQ interests pick raises hmessage, countP_filterMap]
  congr 1
  funext queue
  cases RabbitMQAdapter.consumerOf pick (queueConsumers interests) record queue with
  | none => rfl
  | some consumer => rfl

theorem exists_call_rabbitMQ (raises : ℕ → ℕ → Bool)
    (hmessage : messages[record]? = some message) {first second : ℕ}
    {group : Option (List Char)} {other : Interest}
    (hfirst : interests[first]? = some ⟨message.topic, group⟩)
    (hsecond : interests[second]? = some other)
    (hqueue : RabbitMQAdapter.queueName other.topic other.group =
      RabbitMQAdapter.queueName message.topic group) :
    ∃ pick, (second, { message with topic := other.topic, key := none }) ∈
        (Adapter.rabbitMQ.ready interests).calls pick raises messages record ∧
      ∀ call ∈ (Adapter.rabbitMQ.ready interests).calls pick raises messages record,
        (interests[call.1]? = some ⟨message.topic, group⟩ → call.1 = second) := by
  have hconsumer : ⟨RabbitMQAdapter.queueName other.topic other.group,
      other.topic, second⟩ ∈ queueConsumers interests :=
    mem_queueConsumers.mpr ⟨other.group, hsecond, rfl⟩
  obtain ⟨pick, hpick⟩ := exists_pick hconsumer
  have hbound : RabbitMQAdapter.queueName other.topic other.group ∈
      RabbitMQAdapter.boundQueues (queueConsumers interests) message.topic :=
    mem_boundQueues.mpr ⟨first, group, hfirst, hqueue⟩
  refine ⟨pick, (mem_calls_rabbitMQ hmessage).mpr ⟨_, _, hbound, hpick record, rfl⟩, ?_⟩
  intro call hcall hinterest
  obtain ⟨queue, consumer, -, hsome, rfl⟩ :=
    (mem_calls_rabbitMQ hmessage).mp hcall
  obtain ⟨-, name, hname, rfl⟩ := consumerOf_eq_some hsome
  rw [hinterest] at hname
  obtain ⟨htopic, rfl⟩ := Interest.mk.inj (Option.some.inj hname)
  rw [← htopic, ← hqueue, hpick record] at hsome
  rw [← Option.some.inj hsome]

theorem interest_of_suits (hsuits : Adapter.rabbitMQ.Suits interests
      message.topic) {pick : Pick} {handler : ℕ}
    {group : Option (List Char)} {consumer : RabbitMQConsumer ℕ}
    (hinterest : interests[handler]? = some ⟨message.topic, group⟩)
    (hconsumer : RabbitMQAdapter.consumerOf pick (queueConsumers interests)
      record (RabbitMQAdapter.queueName message.topic group) = some consumer) :
    consumer.topic = message.topic ∧
      interests[consumer.handler]? = some ⟨message.topic, group⟩ ∧
        (group = none → consumer.handler = handler) := by
  obtain ⟨-, name, hname, hqueue⟩ := consumerOf_eq_some hconsumer
  obtain ⟨hsame, hnone⟩ :=
    hsuits handler consumer.handler group _ hinterest hname hqueue.symm
  obtain ⟨htopic, rfl⟩ := Interest.mk.inj hsame
  refine ⟨htopic, ?_, fun h => (hnone h).symm⟩
  rw [hname, htopic]

theorem delivered_rabbitMQ_of_suits
    (hsuits : Adapter.rabbitMQ.Suits interests message.topic) (pick : Pick)
    (raises : ℕ → ℕ → Bool) (hmessage : messages[record]? = some message) :
    Delivered interests message ((Adapter.rabbitMQ.ready interests).calls pick
      raises messages record) where
  ungrouped := by
    intro handler hinterest
    rw [countP_calls_rabbitMQ pick raises hmessage fun other => other = handler]
    have hbound := mem_boundQueues.mpr ⟨handler, none, hinterest, rfl⟩
    obtain ⟨consumer, hconsumer⟩ := exists_consumerOf pick record hbound
    apply countP_eq_one (nodup_dedup _) hbound
    · have hsame := (interest_of_suits hsuits hinterest hconsumer).2.2 rfl
      simp [hconsumer, hsame]
    · intro queue _ hany
      obtain ⟨other, hother, hhandler⟩ := Option.any_eq_true _ _ |>.mp hany
      obtain ⟨-, name, hname, rfl⟩ := consumerOf_eq_some hother
      rw [decide_eq_true_eq] at hhandler
      rw [hhandler, hinterest] at hname
      obtain ⟨htopic, rfl⟩ := Interest.mk.inj (Option.some.inj hname)
      rw [htopic]
  grouped := by
    intro group hinterest
    obtain ⟨handler, hhandler⟩ := mem_iff_getElem?.mp hinterest
    rw [countP_calls_rabbitMQ pick raises hmessage
      fun other => groupOf interests other = some group]
    have hbound := mem_boundQueues.mpr ⟨handler, some group, hhandler, rfl⟩
    obtain ⟨consumer, hconsumer⟩ := exists_consumerOf pick record hbound
    apply countP_eq_one (nodup_dedup _) hbound
    · have hsame := (interest_of_suits hsuits hhandler hconsumer).2.1
      simp [hconsumer, groupOf, hsame]
    · intro queue hqueue hany
      obtain ⟨other, hother, hgroup⟩ := Option.any_eq_true _ _ |>.mp hany
      obtain ⟨number, name, hnumber, rfl⟩ := mem_boundQueues.mp hqueue
      have hsame := (interest_of_suits hsuits hnumber hother).2.1
      rw [decide_eq_true_eq, groupOf, hsame] at hgroup
      rw [show name = some group from hgroup]
  topics := by
    intro call hcall
    obtain ⟨queue, consumer, hqueue, hconsumer, rfl⟩ :=
      (mem_calls_rabbitMQ hmessage).mp hcall
    obtain ⟨number, name, hnumber, rfl⟩ := mem_boundQueues.mp hqueue
    obtain ⟨htopic, hsame, -⟩ := interest_of_suits hsuits hnumber hconsumer
    exact ⟨htopic, name, hsame⟩

/-- RabbitMQ keeps the contract for a message, however the server hands it out,
when the handlers that share a queue of its topic are of one topic and group and
no ungrouped one shares its queue. -/
theorem delivered_rabbitMQ_iff (raises : ℕ → ℕ → Bool)
    (hmessage : messages[record]? = some message) :
    (∀ pick, Delivered interests message ((Adapter.rabbitMQ.ready
      interests).calls pick raises messages record)) ↔
        Adapter.rabbitMQ.Suits interests message.topic := by
  constructor
  · intro hall first second group other hfirst hsecond hqueue
    obtain ⟨pick, hcall, honly⟩ :=
      exists_call_rabbitMQ raises hmessage hfirst hsecond hqueue
    have hdelivered := hall pick
    obtain ⟨htopic, name, hname⟩ := hdelivered.topics _ hcall
    rw [hsecond] at hname
    obtain rfl := Option.some.inj hname
    have hserved : ∃ call ∈ (Adapter.rabbitMQ.ready interests).calls pick raises
        messages record, interests[call.1]? = some ⟨message.topic, group⟩ ∧
          (group = none → call.1 = first) := by
      cases group with
      | none =>
        have hone := hdelivered.ungrouped first hfirst
        obtain ⟨call, hmem, hfound⟩ := exists_of_countP_eq_one hone
        rw [decide_eq_true_eq] at hfound
        exact ⟨call, hmem, hfound ▸ hfirst, fun _ => hfound⟩
      | some group =>
        have hone := hdelivered.grouped group (mem_of_getElem? hfirst)
        obtain ⟨call, hmem, hfound⟩ := exists_of_countP_eq_one hone
        obtain ⟨-, served, hserved⟩ := hdelivered.topics call hmem
        rw [decide_eq_true_eq, groupOf, hserved] at hfound
        rw [show served = some group from hfound] at hserved
        exact ⟨call, hmem, hserved, by simp⟩
    obtain ⟨call, hmem, hinterest, hnone⟩ := hserved
    have hsame := honly call hmem hinterest
    rw [hsame, hsecond] at hinterest
    exact ⟨Option.some.inj hinterest, fun h => (hnone h).symm.trans hsame⟩
  · intro hsuits pick
    exact delivered_rabbitMQ_of_suits hsuits pick raises hmessage

end Contract

/-- Each adapter keeps the contract for a sequence of messages exactly when it
suits the subscriptions of their topics. -/
theorem delivered_iff (adapter : Adapter) (interests : List Interest)
    (messages : List Message) :
    (∀ pick record message, messages[record]? = some message →
      Delivered interests message ((adapter.ready interests).calls pick
        (fun _ _ => false) messages record)) ↔
      ∀ message ∈ messages, adapter.Suits interests message.topic := by
  constructor
  · intro hall message hmem
    obtain ⟨record, hmessage⟩ := mem_iff_getElem?.mp hmem
    cases adapter with
    | memory => trivial
    | kafka =>
      exact (delivered_kafka_iff interests (fun _ _ => 0) hmessage).mp
        (hall _ record message hmessage)
    | rabbitMQ =>
      exact (delivered_rabbitMQ_iff _ hmessage).mp fun pick =>
        hall pick record message hmessage
  · intro hsuits pick record message hmessage
    have hmem := mem_of_getElem? hmessage
    cases adapter with
    | memory => exact delivered_memory interests pick hmessage
    | kafka =>
      exact (delivered_kafka_iff interests pick hmessage).mpr (hsuits message hmem)
    | rabbitMQ =>
      exact (delivered_rabbitMQ_iff _ hmessage).mpr (hsuits message hmem) pick

/-- Kafka calls both handlers of a group. -/
theorem not_delivered_workers :
    ¬ Delivered [⟨['t'], some ['w']⟩, ⟨['t'], some ['w']⟩] ⟨['t'], [], none, []⟩
      ((Adapter.kafka.ready [⟨['t'], some ['w']⟩, ⟨['t'], some ['w']⟩]).calls
        (fun _ _ => 0) (fun _ _ => false) [⟨['t'], [], none, []⟩] 0) := by
  intro h
  have hone := h.grouped ['w'] mem_cons_self
  exact absurd hone (by decide)

end PyFly.Messaging
