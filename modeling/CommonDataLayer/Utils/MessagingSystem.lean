import CommonDataLayer.Wire.Values

/-! # Messages of the queues

The interface that both brokers offer, and what each makes of its own messages. The bytes of a key
or of a payload come with their decoding, `.error` being the text of the UTF-8 error.
-/
namespace CommonDataLayer.MessagingSystem
set_option autoImplicit false

inductive Error where
  | communicationError (text : String)
  | runtimeError (text : String)
  deriving DecidableEq, Repr

def Error.display : Error → String
  | communicationError text => s!"Error during communication via message queue \"{text}\""
  | runtimeError text => s!"Error during joining blocking task \"{text}\""

/-- What a consumed message lets its handler read. -/
structure CommunicationMessage where
  key : Except Error String
  payload : Except Error String

/-- A message of the Kafka client. -/
structure BorrowedMessage where
  topic : String
  partition : ℕ
  offset : ℤ
  key : Option (Except String String)
  payload : Option (Except String String)

/-- A delivery of the AMQP client. -/
structure Delivery where
  routingKey : String
  data : Except String String

def decoded (missing : String) : Option (Except String String) → Except Error String
  | none => .error (.communicationError missing)
  | some (.error utf8) => .error (.communicationError utf8)
  | some (.ok text) => .ok text

def kafkaCommunicationMessage (message : BorrowedMessage) : CommunicationMessage where
  key := decoded "Message has no key" message.key
  payload := decoded "Message has no payload" message.payload

def amqpCommunicationMessage (delivery : Delivery) : CommunicationMessage where
  key := .ok delivery.routingKey
  payload := match delivery.data with
    | .error _ => .error (.communicationError "Payload was not valid UTF-8")
    | .ok text => .ok text

/-- The key, unless it cannot be read or is empty. -/
def getOrderGroupId (message : CommunicationMessage) : Option String :=
  message.key.toOption.filter fun key => !key.isEmpty

theorem getOrderGroupId_eq_some {message : CommunicationMessage} {key : String} :
    getOrderGroupId message = some key ↔ message.key = .ok key ∧ key ≠ "" := by
  unfold getOrderGroupId
  cases message.key with
  | error e => simp [Except.toOption]
  | ok text =>
    simp only [Except.toOption, Option.filter_eq_some_iff, Option.some.injEq, Except.ok.injEq]
    constructor
    · rintro ⟨rfl, h⟩
      exact ⟨rfl, by simpa using h⟩
    · rintro ⟨rfl, h⟩
      exact ⟨rfl, by simpa using h⟩

end CommonDataLayer.MessagingSystem
