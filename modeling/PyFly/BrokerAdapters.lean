import PyFly.MemoryBroker
import PyFly.Library.InsertionDict

/-!
# The three brokers

A Kafka adapter starts one consumer for the handlers of a topic and group, a
RabbitMQ adapter one for each handler, on a queue named by the group.
-/

namespace PyFly.Messaging

open Library

variable {η : Type}

/-- What `subscribe` appends to the handlers of an adapter. -/
structure HandlerEntry (η : Type) where
  topic : List Char
  handler : η
  group : Option (List Char)

structure Invocation (η : Type) where
  record : ℕ
  handler : η
  message : Message

/-- Which consumer of a group or queue the server hands a record to. -/
abbrev Pick := List Char → ℕ → ℕ

/-! ## Kafka -/

structure KafkaConsumer (η : Type) where
  topic : List Char
  groupId : Option (List Char)
  handlers : List η

structure KafkaAdapter (η : Type) where
  handlers : List (HandlerEntry η) := []
  consumers : List (KafkaConsumer η) := []

namespace KafkaAdapter

def subscribe (adapter : KafkaAdapter η) (entry : HandlerEntry η) : KafkaAdapter η :=
  { adapter with handlers := adapter.handlers ++ [entry] }

def grouped (handlers : List (HandlerEntry η)) :
    Dict (List Char × Option (List Char)) (List η) :=
  handlers.foldl (fun grouped entry =>
    let key := (entry.topic, entry.group)
    grouped.set key ((grouped.get? key).getD [] ++ [entry.handler])) Dict.empty

def start (adapter : KafkaAdapter η) : KafkaAdapter η :=
  { adapter with
    consumers := adapter.consumers ++
      (grouped adapter.handlers).items.map fun entry =>
        ⟨entry.1.1, entry.1.2, entry.2⟩ }

/-- `for handler in handlers: await handler(msg)` -/
def call (raises : η → Bool) : List η → List η
  | [] => []
  | handler :: handlers =>
    handler :: if raises handler then [] else call raises handlers

def consumeLoop (raises : ℕ → η → Bool) (handlers : List η) :
    List (ℕ × Message) → List (Invocation η)
  | [] => []
  | (record, message) :: records =>
    (call (raises record) handlers).map (⟨record, ·, message⟩) ++
      if handlers.any (raises record) then []
      else consumeLoop raises handlers records

def receives (pick : Pick) (consumers : List (KafkaConsumer η)) (place : ℕ)
    (consumer : KafkaConsumer η) (record : ℕ × Message) : Bool :=
  consumer.topic = record.2.topic && match consumer.groupId with
    | none => true
    | some group =>
      let members := consumers.zipIdx.filterMap fun (other, place) =>
        if other.topic = record.2.topic ∧ other.groupId = some group then
          some place
        else none
      members[pick group record.1 % members.length]? = some place

def invocations (adapter : KafkaAdapter η) (pick : Pick)
    (raises : ℕ → η → Bool) (records : List (ℕ × Message)) :
    List (Invocation η) :=
  adapter.consumers.zipIdx.flatMap fun (consumer, place) =>
    consumeLoop raises consumer.handlers
      (records.filter (receives pick adapter.consumers place consumer))

end KafkaAdapter

/-! ## RabbitMQ -/

structure RabbitMQConsumer (η : Type) where
  queue : List Char
  topic : List Char
  handler : η

structure RabbitMQAdapter (η : Type) where
  handlers : List (HandlerEntry η) := []
  consumers : List (RabbitMQConsumer η) := []

namespace RabbitMQAdapter

def subscribe (adapter : RabbitMQAdapter η) (entry : HandlerEntry η) : RabbitMQAdapter η :=
  { adapter with handlers := adapter.handlers ++ [entry] }

def queueName (topic : List Char) : Option (List Char) → List Char
  | none | some [] => "pyfly.".toList ++ topic
  | some group => group

def start (adapter : RabbitMQAdapter η) : RabbitMQAdapter η :=
  { adapter with
    consumers := adapter.consumers ++ adapter.handlers.map fun entry =>
      ⟨queueName entry.topic entry.group, entry.topic, entry.handler⟩ }

def boundQueues (consumers : List (RabbitMQConsumer η)) (topic : List Char) :
    List (List Char) :=
  ((consumers.filter fun consumer => consumer.topic = topic).map (·.queue)).dedup

def consumerOf (pick : Pick) (consumers : List (RabbitMQConsumer η))
    (record : ℕ) (queue : List Char) : Option (RabbitMQConsumer η) :=
  let members := consumers.filter fun consumer => consumer.queue = queue
  members[pick queue record % members.length]?

/-- `on_message`: a handler that raises has the message rejected. -/
def onMessage (consumer : RabbitMQConsumer η) (record : ℕ) (message : Message) : Invocation η :=
  ⟨record, consumer.handler, { message with topic := consumer.topic, key := none }⟩

def invocations (adapter : RabbitMQAdapter η) (pick : Pick)
    (records : List (ℕ × Message)) : List (Invocation η) :=
  records.flatMap fun (record, message) =>
    (boundQueues adapter.consumers message.topic).filterMap fun queue =>
      (consumerOf pick adapter.consumers record queue).map fun consumer =>
        onMessage consumer record message

end RabbitMQAdapter

/-! ## The port -/

def InMemoryMessageBroker.invocations (raises : ℕ → η → Bool) :
    InMemoryMessageBroker η → List (ℕ × Message) → List (Invocation η)
  | _, [] => []
  | broker, (record, message) :: records =>
    let called := broker.publish (raises record) message.topic
    called.1.map (⟨record, ·, message⟩) ++ invocations raises called.2 records

inductive MessageBroker (η : Type)
  | memory (broker : InMemoryMessageBroker η)
  | kafka (adapter : KafkaAdapter η)
  | rabbitMQ (adapter : RabbitMQAdapter η)

inductive Adapter
  | memory
  | kafka
  | rabbitMQ
  deriving DecidableEq

def Adapter.broker : Adapter → MessageBroker η
  | memory => .memory {}
  | kafka => .kafka {}
  | rabbitMQ => .rabbitMQ {}

namespace MessageBroker

def subscribe : MessageBroker η → HandlerEntry η → MessageBroker η
  | memory broker, entry =>
    memory (broker.subscribe entry.topic entry.handler entry.group)
  | kafka adapter, entry => kafka (adapter.subscribe entry)
  | rabbitMQ adapter, entry => rabbitMQ (adapter.subscribe entry)

def start : MessageBroker η → MessageBroker η
  | memory broker => memory { broker with running := true }
  | kafka adapter => kafka adapter.start
  | rabbitMQ adapter => rabbitMQ adapter.start

def invocations (broker : MessageBroker η) (pick : Pick)
    (raises : ℕ → η → Bool) (messages : List Message) : List (Invocation η) :=
  let records := messages.zipIdx.map fun (message, record) => (record, message)
  match broker with
  | memory broker => broker.invocations raises records
  | kafka adapter => adapter.invocations pick raises records
  | rabbitMQ adapter => adapter.invocations pick records

def calls (broker : MessageBroker η) (pick : Pick) (raises : ℕ → η → Bool)
    (messages : List Message) (record : ℕ) : List (η × Message) :=
  ((broker.invocations pick raises messages).filter (·.record = record)).map fun invocation =>
      (invocation.handler, invocation.message)

end MessageBroker

end PyFly.Messaging
