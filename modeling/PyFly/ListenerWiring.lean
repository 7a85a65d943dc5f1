import PyFly.BrokerIsolation
import PyFly.LifecycleCalls

/-!
# Message listeners of a context

`start()` starts the message broker with the infrastructure, schedules the
subscriptions of the `@message_listener` methods as tasks after all beans were
introduced, and then calls event listeners and runners.  The tasks run when one
of these suspends, which may be never, and find a broker whose consumers were
made before.
-/

namespace PyFly.Messaging

open Library Container List

/-! ## The listeners of a context -/

/-- A method which is marked by `@message_listener`. -/
structure ListenerMethod where
  name : List Char
  interest : Interest

/-- `not attr_name.startswith("_")` -/
def ListenerMethod.isPublic (method : ListenerMethod) : Bool :=
  method.name.head? ≠ some '_'

structure ContextListener where
  method : ListenerMethod
  hasInstance : Bool

/-- Whether `_wire_message_listeners` finds the method. -/
def ContextListener.isWired (listener : ContextListener) : Bool :=
  listener.hasInstance && listener.method.isPublic

/-- A run of the phases of `start()`, with the marked methods of the classes in
the order of `dir()`, in a context whose port resolves to a broker with the
methods `start` and `stop`. -/
structure MessagingContext (κ ε : Type) [DecidableEq κ] where
  classes : Classes κ ε
  callbacks : Callbacks κ ε
  depth : ℕ
  factories : Factories κ ε
  declarations : Declarations κ
  environment : Environment
  discovered : List (TypeExpr κ)
  opened : NewContext κ
  configured : ApplicationContext κ
  resolved : ApplicationContext κ
  introduced : ApplicationContext κ
  broker : Bean κ
  messageListeners : TypeExpr κ → List ListenerMethod
  configures : configure classes depth factories declarations environment
    discovered opened.application = some (.ok (), configured)
  bringsUp : bringUp classes callbacks depth configured = some (.ok (), resolved)
  introduces : introduceBeans classes callbacks depth resolved = some (.ok (), introduced)
  marked : ∀ type, callbacks.hasMessageListener type =
    (messageListeners type).any ListenerMethod.isPublic
  port : ∃ beans, call classes resolved.registry depth
    (resolve classes resolved.registry .outermost callbacks.messageBroker)
      resolved.beans = some (.ok broker.type, beans)
  lifecycle : hasLifecycleMethods callbacks broker.type = true

/-- The events which `start()` publishes at its end. -/
inductive LifecycleEvent
  | contextRefreshed
  | applicationReady
  deriving DecidableEq

inductive EventType
  | applicationEvent
  | published (event : LifecycleEvent)
  | other

def EventType.accepts (event : LifecycleEvent) : EventType → Bool
  | applicationEvent => true
  | published found => found = event
  | other => false

/-- The event listeners by their types, and the runners: whether a call of them
suspends, so that the event loop comes to run other tasks. -/
structure StartupHooks where
  eventListeners : List (EventType × List (LifecycleEvent → Bool))
  runners : List Bool

def StartupHooks.publish (hooks : StartupHooks) (event : LifecycleEvent) : List Bool :=
  hooks.eventListeners.flatMap fun entry =>
    if entry.1.accepts event then entry.2.map fun listener => listener event
    else []

/-! ## Startup -/

/-- The broker, and the calls of `subscribe` that are scheduled. -/
structure Wiring where
  broker : MessageBroker ℕ
  tasks : List (HandlerEntry ℕ)

/-- The tasks run in their order; no call of `subscribe` suspends. -/
def Wiring.runTasks (wiring : Wiring) : Wiring where
  broker := wiring.tasks.foldl MessageBroker.subscribe wiring.broker
  tasks := []

def Wiring.await (wiring : Wiring) (suspends : Bool) : Wiring :=
  if suspends then wiring.runTasks else wiring

namespace MessagingContext

variable {κ ε : Type} [DecidableEq κ] (context : MessagingContext κ ε)

def listeners : List ContextListener :=
  context.resolved.registry.registrations.values.flatMap fun reg =>
    match context.resolved.beans.instances reg.id with
    | some bean => (context.messageListeners bean.type).map (⟨·, true⟩)
    | none => (context.messageListeners reg.implType).map (⟨·, false⟩)

def interests : List Interest :=
  context.listeners.map fun listener => listener.method.interest

def startedBroker (adapter : Adapter) : MessageBroker ℕ :=
  context.introduced.calls.foldl
    (fun broker call =>
      if call = ⟨context.broker, .start, ""⟩ then broker.start else broker)
    adapter.broker

/-- The tasks of `_wire_message_listeners`. -/
def subscriptions : List (HandlerEntry ℕ) :=
  (context.listeners.zipIdx.filter fun entry => entry.1.isWired).map fun entry =>
      ⟨entry.1.method.interest.topic, entry.2, entry.1.method.interest.group⟩

/-- When the event listeners for `ContextRefreshedEvent` have returned. -/
def refreshed (adapter : Adapter) (hooks : StartupHooks) : Wiring :=
  (hooks.publish .contextRefreshed).foldl Wiring.await
    ⟨context.startedBroker adapter, context.subscriptions⟩

/-- When each of the event listeners for `ApplicationReadyEvent` and of the
runners is called, and when `start()` has returned. -/
def moments (adapter : Adapter) (hooks : StartupHooks) : List Wiring :=
  (hooks.publish .applicationReady ++ hooks.runners).scanl Wiring.await
    (context.refreshed adapter hooks)

end MessagingContext

namespace MessageBroker

def Subscribed (entry : HandlerEntry ℕ) : MessageBroker ℕ → Prop
  | memory broker =>
    ⟨entry.handler, entry.group⟩ ∈ broker.subscriptions entry.topic
  | kafka adapter => entry ∈ adapter.handlers
  | rabbitMQ adapter => entry ∈ adapter.handlers

def Attached (entry : HandlerEntry ℕ) : MessageBroker ℕ → Prop
  | memory broker => broker.running = true
  | kafka adapter => ∃ consumer ∈ adapter.consumers,
      consumer.topic = entry.topic ∧ consumer.groupId = entry.group ∧
        entry.handler ∈ consumer.handlers
  | rabbitMQ adapter => ∃ consumer ∈ adapter.consumers, consumer.topic = entry.topic ∧
        consumer.queue = RabbitMQAdapter.queueName entry.topic entry.group ∧
          consumer.handler = entry.handler

def Reaches (interests : List Interest) (entry : HandlerEntry ℕ)
    (broker : MessageBroker ℕ) : Prop :=
  ∀ (pick : Pick) (messages : List Message) (record : ℕ) (message : Message),
    messages[record]? = some message → message.topic = entry.topic →
      ∃ call ∈ broker.calls pick (fun _ _ => false) messages record, match entry.group with
        | none => call.1 = entry.handler
        | some group => interests[call.1]? = some ⟨entry.topic, some group⟩

structure Serves (interests : List Interest) (broker : MessageBroker ℕ)
    (entry : HandlerEntry ℕ) : Prop where
  subscribed : broker.Subscribed entry
  attached : broker.Attached entry
  reaches : broker.Reaches interests entry

end MessageBroker

def ListenersServed {κ ε : Type} [DecidableEq κ]
    (context : MessagingContext κ ε) (adapter : Adapter)
    (hooks : StartupHooks) : Prop :=
  ∀ wiring ∈ context.moments adapter hooks, ∀ entry ∈ entries context.interests,
      wiring.broker.Serves context.interests entry

structure SubscribesInTime {κ ε : Type} [DecidableEq κ]
    (context : MessagingContext κ ε) (adapter : Adapter)
    (hooks : StartupHooks) : Prop where
  memory : adapter = .memory
  starts : context.broker ∈ context.configured.instances
  wired : ∀ listener ∈ context.listeners, listener.isWired = true
  suspends : true ∈ hooks.publish .contextRefreshed

namespace Wiring

theorem await_runTasks (wiring : Wiring) (suspends : Bool) :
    wiring.runTasks.await suspends = wiring.runTasks := by
  unfold await
  split <;> rfl

theorem foldl_await_runTasks (wiring : Wiring) (calls : List Bool) :
    calls.foldl await wiring.runTasks = wiring.runTasks := by
  induction calls with
  | nil => rfl
  | cons suspends calls ih => rw [foldl_cons, await_runTasks, ih]

theorem foldl_await (wiring : Wiring) (calls : List Bool) :
    calls.foldl await wiring = if true ∈ calls then wiring.runTasks else wiring := by
  induction calls with
  | nil => rfl
  | cons suspends calls ih =>
    rw [foldl_cons]
    cases suspends with
    | true =>
      rw [if_pos mem_cons_self]
      exact foldl_await_runTasks wiring calls
    | false =>
      have hsame : wiring.await false = wiring := rfl
      rw [hsame, ih]
      simp

theorem mem_scanl_head (wiring : Wiring) (calls : List Bool) :
    wiring ∈ calls.scanl await wiring := by
  cases calls with
  | nil => exact mem_singleton_self wiring
  | cons suspends calls =>
    rw [scanl_cons]
    exact mem_cons_self

theorem eq_of_mem_scanl {wiring found : Wiring} {calls : List Bool}
    (h : found ∈ calls.scanl await wiring.runTasks) :
    found = wiring.runTasks := by
  induction calls with
  | nil => exact mem_singleton.mp h
  | cons suspends calls ih =>
    rw [scanl_cons, await_runTasks] at h
    rcases mem_cons.mp h with hfirst | hrest
    · exact hfirst
    · exact ih hrest

end Wiring

section Calls

variable {κ ε : Type} [DecidableEq κ] (context : MessagingContext κ ε)

theorem start_mem_calls_iff : ⟨context.broker, .start, ""⟩ ∈ context.introduced.calls ↔
      context.broker ∈ context.configured.instances := by
  obtain ⟨-, hadapters, hcalls, -⟩ := configure_spec context.configures
  obtain ⟨hresolved, -⟩ := bringUp_spec context.bringsUp
  obtain ⟨processors, -, hintroduced, -⟩ :=
    introduceBeans_spec context.introduces
  rw [hintroduced.calls, hresolved.calls, hcalls, hadapters]
  constructor
  · intro h
    rcases mem_append.mp h with hfront | hsubscribed
    · rcases mem_append.mp hfront with hstarted | hinitial
      · obtain ⟨adapter, hadapter, hcall⟩ := mem_map.mp
          (show _ ∈ [] ++ List.map _ _ from hstarted)
        have hsame : adapter = context.broker := by
          simpa using hcall
        rw [hsame] at hadapter
        exact (mem_filter.mp (show _ ∈ [] ++ List.filter _ _ from hadapter)).1
      · obtain ⟨reg, -, hreg⟩ := mem_flatMap.mp hinitial
        split at hreg
        · cases hreg
        · simp [initialCalls] at hreg
    · obtain ⟨bean, -, hbean⟩ := mem_flatMap.mp hsubscribed
      simp at hbean
  · intro h
    refine mem_append_left _ (mem_append_left _ ?_)
    refine mem_append_right _ (mem_map.mpr ⟨context.broker, ?_, rfl⟩)
    exact mem_append_right _ (mem_filter.mpr ⟨h, context.lifecycle⟩)

variable (calls : List (LifecycleCall κ)) (bean : Bean κ)

theorem foldl_start_memory (running : Bool) : calls.foldl
        (fun broker call =>
          if call = ⟨bean, .start, ""⟩ then broker.start else broker)
        (.memory { running := running } : MessageBroker ℕ) =
      .memory { running :=
        running || decide (⟨bean, .start, ""⟩ ∈ calls) } := by
  induction calls generalizing running with
  | nil => simp
  | cons call calls ih =>
    rw [foldl_cons]
    by_cases hcall : call = ⟨bean, .start, ""⟩
    · rw [if_pos hcall]
      refine (ih true).trans ?_
      simp [hcall]
    · rw [if_neg hcall, ih]
      simp [Ne.symm hcall]

theorem foldl_start_of_start_eq {broker : MessageBroker ℕ} (h : broker.start = broker) :
    calls.foldl
        (fun broker call =>
          if call = ⟨bean, .start, ""⟩ then broker.start else broker)
        broker = broker := by
  induction calls with
  | nil => rfl
  | cons call calls ih =>
    rw [foldl_cons]
    split
    · rw [h, ih]
    · exact ih

theorem startedBroker_memory : context.startedBroker .memory = .memory
      { running := decide (context.broker ∈ context.configured.instances) } := by
  refine (foldl_start_memory _ context.broker false).trans ?_
  rw [Bool.false_or, decide_eq_decide.mpr (start_mem_calls_iff context)]

theorem startedBroker_kafka : context.startedBroker .kafka = .kafka {} :=
  foldl_start_of_start_eq _ _ rfl

theorem startedBroker_rabbitMQ : context.startedBroker .rabbitMQ = .rabbitMQ {} :=
  foldl_start_of_start_eq _ _ rfl

end Calls

theorem foldl_subscribe_running {entries : List (HandlerEntry ℕ)}
    {broker after : InMemoryMessageBroker ℕ}
    (h : entries.foldl MessageBroker.subscribe (.memory broker) =
      .memory after) (running : Bool) :
    entries.foldl MessageBroker.subscribe (.memory { broker with running := running }) =
      .memory { after with running := running } := by
  induction entries generalizing broker with
  | nil =>
    obtain rfl := MessageBroker.memory.inj h
    rfl
  | cons entry entries ih => exact ih h

section Served

variable {κ ε : Type} [DecidableEq κ] {context : MessagingContext κ ε}
variable {adapter : Adapter} {hooks : StartupHooks}

theorem mem_subscriptions {entry : HandlerEntry ℕ} (h : entry ∈ context.subscriptions) :
    ∃ listener, context.listeners[entry.handler]? = some listener ∧
      listener.isWired = true := by
  obtain ⟨⟨listener, handler⟩, hmem, rfl⟩ := mem_map.mp h
  obtain ⟨hlistener, hwired⟩ := mem_filter.mp hmem
  exact ⟨listener, mk_mem_zipIdx_iff_getElem?.mp hlistener, hwired⟩

theorem subscriptions_of_wired (h : ∀ listener ∈ context.listeners, listener.isWired = true) :
    context.subscriptions = entries context.interests := by
  have hall : ∀ entry ∈ context.listeners.zipIdx, entry.1.isWired = true := by
    intro entry hentry
    exact h entry.1 (fst_mem_of_mem_zipIdx hentry)
  rw [MessagingContext.subscriptions, filter_eq_self.mpr hall, entries,
    MessagingContext.interests, zipIdx_map, map_map]
  rfl

/-! ## The tasks come too late -/

theorem serves_refreshed (h : ListenersServed context adapter hooks) :
    ∀ entry ∈ entries context.interests,
      (context.refreshed adapter hooks).broker.Serves context.interests
        entry :=
  h _ (Wiring.mem_scanl_head _ _)

theorem exists_entry (hne : context.listeners ≠ []) :
    ∃ entry, entry ∈ entries context.interests := by
  cases hlisteners : context.listeners with
  | nil => exact absurd hlisteners hne
  | cons listener listeners =>
    refine ⟨⟨listener.method.interest.topic, 0,
      listener.method.interest.group⟩, mem_entries.mpr ?_⟩
    rw [MessagingContext.interests, hlisteners]
    rfl

theorem suspends_of_served (h : ListenersServed context adapter hooks)
    (hne : context.listeners ≠ []) :
    true ∈ hooks.publish .contextRefreshed := by
  by_contra hnever
  obtain ⟨entry, hentry⟩ := exists_entry hne
  have hserves := serves_refreshed h entry hentry
  rw [MessagingContext.refreshed, Wiring.foldl_await, if_neg hnever] at hserves
  have hsubscribed := hserves.subscribed
  cases adapter with
  | memory =>
    rw [startedBroker_memory] at hsubscribed
    cases hsubscribed
  | kafka =>
    rw [startedBroker_kafka] at hsubscribed
    cases hsubscribed
  | rabbitMQ =>
    rw [startedBroker_rabbitMQ] at hsubscribed
    cases hsubscribed

theorem refreshed_of_suspends (h : true ∈ hooks.publish .contextRefreshed) :
    context.refreshed adapter hooks =
      (⟨context.startedBroker adapter, context.subscriptions⟩ : Wiring).runTasks := by
  rw [MessagingContext.refreshed, Wiring.foldl_await, if_pos h]

theorem memory_of_served (h : ListenersServed context adapter hooks)
    (hne : context.listeners ≠ []) : adapter = .memory := by
  obtain ⟨entry, hentry⟩ := exists_entry hne
  have hattached := (serves_refreshed h entry hentry).attached
  rw [refreshed_of_suspends (suspends_of_served h hne)] at hattached
  cases adapter with
  | memory => rfl
  | kafka =>
    rw [Wiring.runTasks, startedBroker_kafka, foldl_subscribe_kafka]
      at hattached
    obtain ⟨consumer, hconsumer, -⟩ := hattached
    cases hconsumer
  | rabbitMQ =>
    rw [Wiring.runTasks, startedBroker_rabbitMQ, foldl_subscribe_rabbitMQ]
      at hattached
    obtain ⟨consumer, hconsumer, -⟩ := hattached
    cases hconsumer

theorem runTasks_memory (context : MessagingContext κ ε) : ∃ broker : InMemoryMessageBroker ℕ,
      (⟨context.startedBroker .memory, context.subscriptions⟩ :
        Wiring).runTasks.broker = .memory broker ∧
      (broker.running = true ↔ context.broker ∈ context.configured.instances) ∧
      ∀ topic, broker.subscriptions topic =
        (context.subscriptions.filter fun entry => entry.topic = topic).map
          fun entry => ⟨entry.handler, entry.group⟩ := by
  obtain ⟨broker, hbroker, hsubscriptions, -⟩ :=
    foldl_subscribe_memory context.subscriptions
  refine ⟨{ broker with
    running := decide (context.broker ∈ context.configured.instances) },
    ?_, decide_eq_true_iff, hsubscriptions⟩
  rw [Wiring.runTasks, startedBroker_memory]
  exact foldl_subscribe_running hbroker _

theorem subscribesInTime_of_served (h : ListenersServed context adapter hooks)
    (hne : context.listeners ≠ []) :
    SubscribesInTime context adapter hooks := by
  have hmemory := memory_of_served h hne
  have hsuspends := suspends_of_served h hne
  subst hmemory
  obtain ⟨broker, hbroker, hrunning, hsubscriptions⟩ := runTasks_memory context
  have hserves : ∀ entry ∈ entries context.interests,
      (MessageBroker.memory broker).Serves context.interests entry := by
    intro entry hentry
    have hserved := serves_refreshed h entry hentry
    rwa [refreshed_of_suspends hsuspends, hbroker] at hserved
  refine ⟨rfl, ?_, ?_, hsuspends⟩
  · obtain ⟨entry, hentry⟩ := exists_entry hne
    exact hrunning.mp (hserves entry hentry).attached
  · intro listener hlistener
    obtain ⟨handler, hhandler⟩ := mem_iff_getElem?.mp hlistener
    have hentry : ⟨listener.method.interest.topic, handler,
        listener.method.interest.group⟩ ∈ entries context.interests := by
      rw [mem_entries, MessagingContext.interests, List.getElem?_map, hhandler]
      rfl
    have hsubscribed := (hserves _ hentry).subscribed
    rw [MessageBroker.Subscribed, hsubscriptions] at hsubscribed
    obtain ⟨other, hother, hsame⟩ := mem_map.mp hsubscribed
    obtain ⟨found, hfound, hwired⟩ :=
      mem_subscriptions (mem_filter.mp hother).1
    have hnumber : other.handler = handler :=
      congrArg Subscription.handler hsame
    rw [hnumber, hhandler] at hfound
    rw [Option.some.inj hfound]
    exact hwired

/-! ## The tasks run in time -/

theorem ready_of_subscribesInTime (h : SubscribesInTime context adapter hooks) :
    (⟨context.startedBroker adapter, context.subscriptions⟩ :
      Wiring).runTasks.broker = Adapter.memory.ready context.interests := by
  obtain ⟨broker, hbroker, -, -⟩ :=
    foldl_subscribe_memory (entries context.interests)
  rw [h.memory, Wiring.runTasks, startedBroker_memory,
    subscriptions_of_wired h.wired, Adapter.ready, Adapter.broker, hbroker]
  refine (foldl_subscribe_running hbroker _).trans ?_
  rw [decide_eq_true h.starts]
  rfl

theorem serves_ready {interests : List Interest} {entry : HandlerEntry ℕ}
    (h : entry ∈ entries interests) :
    (Adapter.memory.ready interests).Serves interests entry where
  subscribed := by
    rw [memory_ready]
    exact mem_subsOf.mpr (mem_entries.mp h)
  attached := by
    rw [memory_ready]
    rfl
  reaches := by
    intro pick messages record message hmessage htopic
    have hinterest := mem_entries.mp h
    have hdelivered := delivered_memory interests pick hmessage
    rw [← htopic] at hinterest ⊢
    cases hgroup : entry.group with
    | none =>
      rw [hgroup] at hinterest
      exact hdelivered.exists_ungrouped hinterest
    | some group =>
      rw [hgroup] at hinterest
      obtain ⟨call, hcall, hcallGroup⟩ :=
        hdelivered.exists_grouped (mem_of_getElem? hinterest)
      obtain ⟨-, other, hother⟩ := hdelivered.topics call hcall
      refine ⟨call, hcall, ?_⟩
      rw [groupOf, hother] at hcallGroup
      have hsame : other = some group := hcallGroup
      rwa [hsame] at hother

theorem served_of_subscribesInTime (h : SubscribesInTime context adapter hooks) :
    ListenersServed context adapter hooks := by
  intro wiring hwiring entry hentry
  rw [MessagingContext.moments, refreshed_of_suspends h.suspends] at hwiring
  rw [Wiring.eq_of_mem_scanl hwiring, ready_of_subscribesInTime h]
  exact serves_ready hentry

end Served

/-- The listeners are served exactly when there are none, or the broker is the
one in memory, is started with the infrastructure and somebody lets the tasks
run before the application is ready. -/
theorem listenersServed_iff {κ ε : Type} [DecidableEq κ]
    (context : MessagingContext κ ε) (adapter : Adapter)
    (hooks : StartupHooks) :
    ListenersServed context adapter hooks ↔
      context.listeners = [] ∨ SubscribesInTime context adapter hooks := by
  constructor
  · intro h
    by_cases hempty : context.listeners = []
    · exact Or.inl hempty
    · exact Or.inr (subscribesInTime_of_served h hempty)
  · rintro (hempty | h)
    · intro wiring _ entry hentry
      rw [MessagingContext.interests, hempty] at hentry
      cases hentry
    · exact served_of_subscribesInTime h

namespace OrderMessaging

def factories : Factories String Empty :=
  { StorePort.factories with
    isConfiguration := fun cls => cls = .cls "MessagingConfig"
    methods := fun _ =>
      [{ attrName := "message_broker"
         functionName := "message_broker"
         returnType := some (.cls "MessageBrokerPort")
         parameters := []
         conditions := [] }]
    make := fun _ _ _ => .ok (.cls "MessageBroker") }

def callbacks : Callbacks String Empty :=
  { StorePort.callbacks with
    defines := fun type _ => type = .cls "MessageBroker"
    hasMessageListener := fun type => type = .cls "OrderListener" }

def opened : NewContext String :=
  { StorePort.opened with
    registry := register StorePort.classes (.cls "OrderListener") .singleton ""
      (register StorePort.classes (.cls "MessagingConfig") .singleton ""
        Registry.empty) }

def after (phase : Phase String Empty) (app : ApplicationContext String) :
    ApplicationContext String :=
  ((phase app).map Prod.snd).getD app

def configured : ApplicationContext String :=
  after (configure StorePort.classes 2 factories StorePort.declarations
    ⟨[], fun _ => false⟩ []) opened.application

def resolved : ApplicationContext String :=
  after (bringUp StorePort.classes callbacks 2) configured

def introduced : ApplicationContext String :=
  after (introduceBeans StorePort.classes callbacks 2) resolved

/-- `@message_listener("orders", group="billing")` -/
def onOrder : ListenerMethod :=
  ⟨"on_order".toList, ⟨"orders".toList, some "billing".toList⟩⟩

def context : MessagingContext String Empty where
  classes := StorePort.classes
  callbacks := callbacks
  depth := 2
  factories := factories
  declarations := StorePort.declarations
  environment := ⟨[], fun _ => false⟩
  discovered := []
  opened := opened
  configured := configured
  resolved := resolved
  introduced := introduced
  broker := ⟨1, .cls "MessageBroker"⟩
  messageListeners type := if type = .cls "OrderListener" then [onOrder] else []
  configures := rfl
  bringsUp := rfl
  introduces := rfl
  marked type := by
    have hpublic : onOrder.isPublic = true := by decide
    show decide (type = .cls "OrderListener") = _
    by_cases htype : type = .cls "OrderListener"
    · rw [if_pos htype, any_cons, hpublic, decide_eq_true htype]
      rfl
    · rw [if_neg htype, decide_eq_false htype]
      rfl
  port := ⟨_, rfl⟩
  lifecycle := rfl

def waiting : StartupHooks :=
  ⟨[(.published .contextRefreshed, [fun _ => true])], []⟩

end OrderMessaging

/-- Nobody suspends, and the listener is not subscribed to the broker in memory;
somebody does, and it is attached to no consumer of the other two. -/
theorem not_listenersServed_orders : ¬ ListenersServed OrderMessaging.context .memory ⟨[], []⟩ ∧
      ¬ ListenersServed OrderMessaging.context .kafka OrderMessaging.waiting ∧
      ¬ ListenersServed OrderMessaging.context .rabbitMQ OrderMessaging.waiting := by
  have hsome : OrderMessaging.context.listeners.length = 1 := by decide +kernel
  have hne : OrderMessaging.context.listeners ≠ [] :=
    ne_nil_of_length_eq_add_one hsome
  refine ⟨fun h => ?_, fun h => ?_, fun h => ?_⟩
  · exact not_mem_nil (suspends_of_served h hne)
  · exact absurd (memory_of_served h hne) (by decide)
  · exact absurd (memory_of_served h hne) (by decide)

end PyFly.Messaging
