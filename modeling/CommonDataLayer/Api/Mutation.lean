import CommonDataLayer.Foundations.Program
import CommonDataLayer.Utils.MessagingSystem

/-! # Inserting messages

`insert_batch` of the GraphQL mutations. Its loop validates a message and publishes it before it looks
at the next one, so a payload that is no JSON ends it after everything in front of it was published
(`allOrNothing_iff`).

* `Inserted`: the calls of the loop, and what it returns.
* `AllOrNothing`: a rejected batch published nothing, and an inserted one everything once, in order.
-/
namespace CommonDataLayer.Api.Mutation
open Interaction MessagingSystem
set_option autoImplicit false

structure InputMessage where
  objectId : Uuid
  schemaId : Uuid
  payload : String

/-! ## The configuration -/

inductive MessageQueue where
  | amqp
  | kafka

structure MessageQueueArgs where
  messageQueue : MessageQueue
  kafkaBrokers : Option String
  kafkaGroupId : Option String
  amqpConnectionString : Option String
  amqpConsumerTag : Option String

inductive MessageQueueConfig where
  | kafka (groupId brokers : String)
  | amqp (connectionString consumerTag : String)

/-- `Option::context`. -/
def required (text : String) : Option String → Except AnyhowError String
  | some value => .ok value
  | none => .error (.root text)

def MessageQueueArgs.config (args : MessageQueueArgs) : Except AnyhowError MessageQueueConfig :=
  match args.messageQueue with
  | .kafka => do
    let brokers ← required "Missing kafka brokers" args.kafkaBrokers
    let groupId ← required "Missing kafka group" args.kafkaGroupId
    return .kafka groupId brokers
  | .amqp => do
    let connectionString ← required "Missing AMQP connection string" args.amqpConnectionString
    let consumerTag ← required "Missing AMQP consumer tag" args.amqpConsumerTag
    return .amqp connectionString consumerTag

structure Config where
  messageQueue : MessageQueueArgs
  dataRouterTopicOrQueue : String

/-! ## The functions -/

/-- The errors that become a `FieldError`. -/
inductive FieldError where
  | context (error : AnyhowError)
  | json (text : String)
  | publisherError (error : Error)

inductive Call where
  | newAmqp (connectionString : String)
  | newKafka (brokers : String)
  | newUuid
  | publishMessage (topicOrExchange key : String) (payload : DataRouterInsertMessage)

abbrev Answer : Call → Type
  | .newAmqp _ => Except Error Unit
  | .newKafka _ => Except Error Unit
  | .newUuid => Uuid
  | .publishMessage _ _ _ => Except Error Unit

abbrev Task (α : Type) : Type := Program Answer α

abbrev FieldResult (α : Type) : Type := Except FieldError α

def opened (text : String) (r : Except Error Unit) : FieldResult Unit :=
  (withContext text (r.mapError fun e => .root e.display)).mapError .context

def connectToDataRouter (config : Config) : Task (FieldResult Unit) :=
  match config.messageQueue.config with
  | .error e => return .error (.context e)
  | .ok (.amqp connectionString _) => do
    return opened "Unable to open RabbitMQ publisher for Data Router"
      (← Program.perform (Call.newAmqp connectionString))
  | .ok (.kafka _ brokers) => do
    return opened "Unable to open Kafka publisher for Data Router"
      (← Program.perform (Call.newKafka brokers))

/-- `RawValue::from_string`. -/
def fromString (json : SerdeJson) (text : String) : Except String RawValue :=
  json.rawValue text.toUTF8.toList

def published (topic key : String) (message : InputMessage) (data : RawValue) : Call :=
  .publishMessage topic key { objectId := message.objectId, schemaId := message.schemaId, data := data }

/-- One message is checked, serialised and published. -/
def publish (json : SerdeJson) (topic key : String) (message : InputMessage) :
    Task (FieldResult Unit) :=
  match fromString json message.payload with
  | .error e => return .error (.json e)
  | .ok data => do
    let r ← Program.perform (published topic key message data)
    return r.mapError .publisherError

/-- The loop over the messages of a batch. -/
def publishAll (json : SerdeJson) (topic orderGroupId : String) :
    List InputMessage → Task (FieldResult Unit)
  | [] => return .ok ()
  | message :: messages => do
    match ← publish json topic orderGroupId message with
    | .error e => return .error e
    | .ok () => publishAll json topic orderGroupId messages

def insertBatch (json : SerdeJson) (config : Config) (messages : List InputMessage) :
    Task (FieldResult Bool) := do
  match ← connectToDataRouter config with
  | .error e => return .error e
  | .ok () =>
    let orderGroupId ← Program.perform Call.newUuid
    match ← publishAll json config.dataRouterTopicOrQueue orderGroupId.toText messages with
    | .error e => return .error e
    | .ok () => return .ok true

/-! ## The loop -/

abbrev Trace : Type := List (Event Answer)

variable {json : SerdeJson} {config : Config} {topic key : String} {message : InputMessage}
  {messages : List InputMessage} {t : Trace}

inductive Inserted (json : SerdeJson) (topic key : String) :
    List InputMessage → Trace → FieldResult Unit → Prop where
  | nil : Inserted json topic key [] [] (.ok ())
  | rejected {message : InputMessage} {rest : List InputMessage} {e : String}
      (invalid : fromString json message.payload = .error e) :
      Inserted json topic key (message :: rest) [] (.error (.json e))
  | refused {message : InputMessage} {rest : List InputMessage} {data : RawValue}
      (valid : fromString json message.payload = .ok data) (e : Error) :
      Inserted json topic key (message :: rest) [⟨published topic key message data, .error e⟩]
        (.error (.publisherError e))
  | published {message : InputMessage} {rest : List InputMessage} {data : RawValue} {t : Trace}
      {r : FieldResult Unit} (valid : fromString json message.payload = .ok data)
      (inserted : Inserted json topic key rest t r) :
      Inserted json topic key (message :: rest)
        (⟨Mutation.published topic key message data, .ok ()⟩ :: t) r

theorem returns_publishAll {r : FieldResult Unit} :
    Returns (publishAll json topic key messages) t r ↔ Inserted json topic key messages t r := by
  induction messages generalizing t with
  | nil =>
    constructor
    · intro h
      obtain ⟨rfl, hr⟩ := steps_ret.mp h
      cases hr
      exact .nil
    · intro h
      cases h
      exact .refl _
  | cons message rest ih =>
    rw [publishAll, publish]
    cases hdata : fromString json message.payload with
    | error e =>
      constructor
      · intro h
        obtain ⟨rfl, hr⟩ := steps_ret.mp h
        cases hr
        exact .rejected hdata
      · intro h
        cases h with
        | rejected invalid =>
          rw [hdata] at invalid
          cases invalid
          exact .refl _
        | refused valid => rw [hdata] at valid; cases valid
        | published valid => rw [hdata] at valid; cases valid
    | ok data =>
      constructor
      · intro h
        obtain ⟨answer, t', rfl, rest⟩ := returns_call.mp h
        cases answer with
        | error e =>
          obtain ⟨rfl, hr⟩ := steps_ret.mp rest
          cases hr
          exact .refused hdata e
        | ok _ => exact .published hdata (ih.mp rest)
      · intro h
        cases h with
        | rejected invalid => rw [hdata] at invalid; cases invalid
        | refused valid e =>
          rw [hdata] at valid
          cases valid
          exact .call (.refl _)
        | published valid inserted =>
          rw [hdata] at valid
          cases valid
          exact .call (ih.mpr inserted)

/-! ## What was published -/

def Valid (json : SerdeJson) (message : InputMessage) : Prop :=
  ∃ data, fromString json message.payload = .ok data

def isPublish : Event Answer → Bool
  | ⟨.publishMessage _ _ _, _⟩ => true
  | _ => false

/-- The messages handed to the broker, with its answers. -/
def publishes (t : Trace) : Trace := t.filter isPublish

/-- The messages were published once each, in their order and under one key. -/
abbrev PublishedAll (json : SerdeJson) (topic key : String) (messages : List InputMessage)
    (t : Trace) : Prop :=
  List.Forall₂ (fun message event => ∃ data, fromString json message.payload = .ok data ∧
    event = ⟨published topic key message data, .ok ()⟩) messages (publishes t)

structure AllOrNothing (json : SerdeJson) (config : Config) (messages : List InputMessage)
    (r : FieldResult Bool) (t : Trace) : Prop where
  rejected (e : String) : r = .error (.json e) → publishes t = []
  inserted : r = .ok true → ∃ key, PublishedAll json config.dataRouterTopicOrQueue key messages t

/-- A payload that is no JSON is found before anything is published. -/
def RejectedAtOnce (json : SerdeJson) (messages : List InputMessage) : Prop :=
  ∀ first rest, messages = first :: rest → Valid json first → ∀ message ∈ rest, Valid json message

theorem publishes_inserted {r : FieldResult Unit} (h : Inserted json topic key messages t r) :
    publishes t = t := by
  induction h with
  | nil => rfl
  | rejected => rfl
  | refused => rfl
  | published _ _ ih => exact congrArg (_ :: ·) ih

theorem publishedAll_inserted {r : FieldResult Unit} (h : Inserted json topic key messages t r)
    (hr : r = .ok ()) : PublishedAll json topic key messages t := by
  rw [PublishedAll, publishes_inserted h]
  induction h with
  | nil => exact .nil
  | rejected => cases hr
  | refused => cases hr
  | published valid _ ih => exact .cons ⟨_, valid, rfl⟩ (ih hr)

theorem exists_invalid {r : FieldResult Unit} (h : Inserted json topic key messages t r) {e : String}
    (hr : r = .error (.json e)) : ∃ message ∈ messages, ¬ Valid json message := by
  induction h with
  | nil => cases hr
  | rejected invalid =>
    refine ⟨_, List.mem_cons_self, ?_⟩
    rintro ⟨data, hdata⟩
    rw [invalid] at hdata
    cases hdata
  | refused => cases hr
  | published _ _ ih =>
    obtain ⟨message, hmem, hinvalid⟩ := ih hr
    exact ⟨message, List.mem_cons_of_mem _ hmem, hinvalid⟩

/-- A broker that accepts everything gets what is in front of an invalid message. -/
theorem exists_rejected (hinvalid : ∃ message ∈ messages, ¬ Valid json message) :
    ∃ t e, Inserted json topic key messages t (.error (.json e)) := by
  induction messages with
  | nil =>
    obtain ⟨message, hmem, -⟩ := hinvalid
    cases hmem
  | cons first rest ih =>
    cases hdata : fromString json first.payload with
    | error e => exact ⟨[], e, .rejected hdata⟩
    | ok data =>
      have hrest : ∃ message ∈ rest, ¬ Valid json message := by
        obtain ⟨message, hmem, hnot⟩ := hinvalid
        rcases List.mem_cons.mp hmem with rfl | hmem
        · exact absurd ⟨data, hdata⟩ hnot
        · exact ⟨message, hmem, hnot⟩
      obtain ⟨t, e, h⟩ := ih hrest
      exact ⟨_, e, .published hdata h⟩

/-! ## A batch -/

theorem returns_connect {r : FieldResult Unit} (h : Returns (connectToDataRouter config) t r) :
    publishes t = [] ∧ ∀ e, r = .error e → ∃ cause, e = .context cause := by
  have hopened {text : String} {answer : Except Error Unit} {e : FieldError}
      (he : opened text answer = .error e) : ∃ cause, e = .context cause := by
    cases answer with
    | error cause =>
      cases he
      exact ⟨_, rfl⟩
    | ok _ => cases he
  unfold connectToDataRouter at h
  split at h
  · obtain ⟨rfl, hr⟩ := steps_ret.mp h
    cases hr
    exact ⟨rfl, fun e he => ⟨_, (Except.error.inj he).symm⟩⟩
  all_goals
    obtain ⟨answer, _, rfl, rest⟩ := returns_call.mp h
    obtain ⟨rfl, hr⟩ := steps_ret.mp rest
    cases hr
    exact ⟨rfl, fun e => hopened⟩

theorem publishes_connected {r : FieldResult Unit} (h : Returns (connectToDataRouter config) t r)
    (more : Trace) : publishes (t ++ more) = publishes more := by
  rw [publishes, List.filter_append, ← publishes, (returns_connect h).1]
  rfl

/-- The rest of a mutation: the loop, whose end is `true`. -/
theorem returns_rest {f : FieldResult Unit → Task (FieldResult Bool)} {r : FieldResult Bool}
    (h : Returns ((publishAll json topic key messages).bind f) t r)
    (hf : ∀ r, f r = .ret (r.map fun _ => true)) :
    ∃ r', Inserted json topic key messages (publishes t) r' ∧ r = r'.map fun _ => true := by
  obtain ⟨r', t₁, t₂, rfl, h₁, h₂⟩ := returns_bind.mp h
  rw [hf] at h₂
  obtain ⟨rfl, hr⟩ := steps_ret.mp h₂
  cases hr
  have hinserted := returns_publishAll.mp h₁
  rw [List.append_nil, publishes_inserted hinserted]
  exact ⟨r', hinserted, rfl⟩

theorem returns_insertBatch {r : FieldResult Bool} (h : Returns (insertBatch json config messages) t r) :
    (publishes t = [] ∧ ∃ cause, r = .error (.context cause)) ∨
      ∃ orderGroupId : Uuid, ∃ r', Inserted json config.dataRouterTopicOrQueue orderGroupId.toText
        messages (publishes t) r' ∧ r = r'.map fun _ => true := by
  obtain ⟨connected, t₁, t₂, rfl, h₁, h₂⟩ := returns_bind.mp h
  rw [publishes_connected h₁]
  cases connected with
  | error e =>
    obtain ⟨rfl, hr⟩ := steps_ret.mp h₂
    cases hr
    obtain ⟨cause, rfl⟩ := (returns_connect h₁).2 e rfl
    exact .inl ⟨rfl, cause, rfl⟩
  | ok _ =>
    obtain ⟨orderGroupId, t₃, t₄, rfl, h₃, h₄⟩ := returns_bind.mp h₂
    obtain rfl := returns_perform.mp h₃
    obtain ⟨r', hinserted, hr⟩ := returns_rest h₄ fun r => by cases r <;> rfl
    exact .inr ⟨orderGroupId, r', hinserted, hr⟩

/-- With a complete configuration the broker can be reached, and everything up to an invalid payload
be published. -/
theorem exists_partial {queue : MessageQueueConfig} (hqueue : config.messageQueue.config = .ok queue)
    (hlate : ¬ RejectedAtOnce json messages) : ∃ t e, publishes t ≠ [] ∧
      Returns (insertBatch json config messages) t (.error (.json e)) := by
  obtain ⟨first, rest, rfl, ⟨data, hdata⟩, hinvalid⟩ : ∃ first rest, messages = first :: rest ∧
      Valid json first ∧ ∃ message ∈ rest, ¬ Valid json message := by
    simpa [RejectedAtOnce] using hlate
  obtain ⟨t₁, hconnect⟩ : ∃ t, Returns (connectToDataRouter config) t (.ok ()) := by
    unfold connectToDataRouter
    rw [hqueue]
    cases queue with
    | amqp connectionString _ => exact ⟨[⟨.newAmqp connectionString, .ok ()⟩], .call (.refl _)⟩
    | kafka _ brokers => exact ⟨[⟨.newKafka brokers, .ok ()⟩], .call (.refl _)⟩
  obtain ⟨t, e, hrest⟩ : ∃ t e, Inserted json config.dataRouterTopicOrQueue (Uuid.toText 0) rest t
      (.error (.json e)) := exists_rejected hinvalid
  have hloop := returns_publishAll.mpr (.published hdata hrest)
  refine ⟨_, e, ?_, returns_bind.mpr ⟨_, t₁, _, rfl, hconnect, returns_bind.mpr
    ⟨(0 : Uuid), [_], _, rfl, returns_perform.mpr rfl, returns_bind.mpr
      ⟨_, _, [], rfl, hloop, .refl _⟩⟩⟩⟩
  simp [publishes, isPublish, published]

theorem nothing_rejected {r : FieldResult Unit} (hcondition : RejectedAtOnce json messages)
    (h : Inserted json topic key messages t r) {e : String} (hr : r = .error (.json e)) : t = [] := by
  cases h with
  | nil => rfl
  | rejected => rfl
  | refused => cases hr
  | published valid inserted =>
    obtain ⟨message, hmem, hinvalid⟩ := exists_invalid inserted hr
    exact absurd (hcondition _ _ rfl ⟨_, valid⟩ message hmem) hinvalid

/-- **A rejected batch published nothing, and an inserted one everything, exactly if its first payload
is invalid or no payload is.** Without a configured broker there is nothing to publish to. -/
theorem allOrNothing_iff (json : SerdeJson) (config : Config) (messages : List InputMessage) :
    (∀ t r, Returns (insertBatch json config messages) t r → AllOrNothing json config messages r t) ↔
      RejectedAtOnce json messages ∨ ∃ e, config.messageQueue.config = .error e := by
  constructor
  · intro h
    cases hqueue : config.messageQueue.config with
    | error e => exact .inr ⟨e, rfl⟩
    | ok queue =>
      refine .inl (by_contra fun hlate => ?_)
      obtain ⟨t, e, hpublished, hreturns⟩ := exists_partial hqueue hlate
      exact hpublished ((h t _ hreturns).rejected e rfl)
  · rintro (hcondition | ⟨e, hqueue⟩) t r hreturns
    · rcases returns_insertBatch hreturns with ⟨hnothing, cause, rfl⟩ | ⟨id, r', hinserted, rfl⟩
      · exact ⟨fun _ _ => hnothing, fun hr => by cases hr⟩
      · cases r' with
        | error e =>
          refine ⟨fun text hr => ?_, fun hr => by cases hr⟩
          cases hr
          exact nothing_rejected hcondition hinserted rfl
        | ok _ =>
          refine ⟨fun _ hr => (by cases hr), fun _ => ⟨id.toText, ?_⟩⟩
          have hall := publishedAll_inserted hinserted rfl
          rw [PublishedAll, publishes_inserted hinserted] at hall
          exact hall
    · rw [insertBatch, connectToDataRouter, hqueue] at hreturns
      obtain ⟨rfl, hr⟩ := steps_ret.mp hreturns
      cases hr
      exact ⟨fun _ _ => rfl, fun hr => by cases hr⟩

def sampleConfig : Config where
  messageQueue := ⟨.kafka, some "localhost:9092", some "api", none, none⟩
  dataRouterTopicOrQueue := "cdl.data.input"

/-- The second payload is rejected when the first message is with the broker. -/
theorem published_and_rejected : ¬ ∀ t r,
    Returns (insertBatch sampleJson sampleConfig [⟨0, 0, "1"⟩, ⟨1, 0, "x"⟩]) t r →
      AllOrNothing sampleJson sampleConfig [⟨0, 0, "1"⟩, ⟨1, 0, "x"⟩] r t := by
  intro h
  have hlate : ¬ RejectedAtOnce sampleJson [⟨0, 0, "1"⟩, ⟨1, 0, "x"⟩] := by
    intro hcondition
    have hvalid : fromString sampleJson "1" = .ok ⟨"1"⟩ := by decide +kernel
    have hinvalid : fromString sampleJson "x" = .error "expected value at line 1 column 1" := by
      decide +kernel
    obtain ⟨data, hdata⟩ := hcondition ⟨0, 0, "1"⟩ [⟨1, 0, "x"⟩] rfl ⟨_, hvalid⟩ _
      (List.mem_singleton_self _)
    cases hinvalid.symm.trans hdata
  have hqueue : sampleConfig.messageQueue.config = .ok _ := rfl
  obtain ⟨t, e, hpublished, hreturns⟩ := exists_partial hqueue hlate
  exact hpublished ((h t _ hreturns).rejected e rfl)

end CommonDataLayer.Api.Mutation
