import CommonDataLayer.Foundations.TryStream
import CommonDataLayer.Utils.MessagingSystem

/-! # Consuming messages

`CommonConsumer::consume` and the loops over its stream in the data router and in a Slave. Both
loops log an error and ask for the next item. The stream, however, is a `try_stream!` that passes an
error of the client on by `?`; it has ended then, and so does the loop.
-/
namespace CommonDataLayer
open MessagingSystem TryStream
open Stream' (Seq)
set_option autoImplicit false

inductive CommonConsumer where
  | kafka
  | amqp
  deriving DecidableEq, Repr

namespace CommonConsumer

/-- What the client yields. -/
abbrev Item : CommonConsumer → Type
  | kafka => BorrowedMessage
  | amqp => Delivery

def message : (consumer : CommonConsumer) → consumer.Item → CommunicationMessage
  | kafka, message => kafkaCommunicationMessage message
  | amqp, delivery => amqpCommunicationMessage delivery

/-- The body of the stream; the state lists the calls of `ack_queue.add`. -/
def consumeBody : (consumer : CommonConsumer) → List BorrowedMessage → consumer.Item →
    CommunicationMessage × List BorrowedMessage
  | kafka, added, message => (kafkaCommunicationMessage message, added ++ [message])
  | amqp, added, delivery => (amqpCommunicationMessage delivery, added)

def consume (consumer : CommonConsumer) (results : Seq (Except String consumer.Item)) :
    Generator String consumer.Item (List BorrowedMessage) := .running results []

theorem consumeBody_fst (consumer : CommonConsumer) (added : List BorrowedMessage)
    (item : consumer.Item) : (consumer.consumeBody added item).1 = consumer.message item := by
  cases consumer <;> rfl

end CommonConsumer

/-! ## The loops -/

/-- A round of the loop in `main`: what was given to `handle_message` so far. -/
def DataRouter.handleItem (passed : List CommunicationMessage) :
    Except String CommunicationMessage → Option (List CommunicationMessage)
  | .ok message => some (passed ++ [message])
  | .error _ => some passed

namespace SchemaRegistry

structure SlaveLoop where
  received : ℕ
  /-- What was given to `consume_message`, whose errors are logged. -/
  passed : List CommunicationMessage

/-- A round of the loop in `consume_mq`; `killSignal` answers the calls of `try_recv`. -/
def SlaveLoop.handleItem (killSignal : ℕ → Bool) (loop : SlaveLoop)
    (item : Except String CommunicationMessage) : Option SlaveLoop :=
  if killSignal loop.received then none
  else match item with
    | .error _ => some { loop with received := loop.received + 1 }
    | .ok message =>
      some { received := loop.received + 1, passed := loop.passed ++ [message] }

end SchemaRegistry

namespace CommonConsumer
open SchemaRegistry

variable (consumer : CommonConsumer) (results : Seq (Except String consumer.Item))

/-- What the data router has passed on after `n` rounds. -/
def routed (n : ℕ) : List CommunicationMessage :=
  (Loop.rounds consumer.consumeBody DataRouter.handleItem n ⟨consumer.consume results, [], false⟩).world

/-- What a Slave has passed on after `n` rounds. -/
def replicated (killSignal : ℕ → Bool) (n : ℕ) : List CommunicationMessage :=
  (Loop.rounds consumer.consumeBody (SlaveLoop.handleItem killSignal) n
    ⟨consumer.consume results, ⟨0, []⟩, false⟩).world.passed

theorem routed_eq (n : ℕ) :
    consumer.routed results n = (beforeError (results.take n)).map consumer.message := by
  have hok (passed : List CommunicationMessage) (message : CommunicationMessage) :
      ∃ passed', DataRouter.handleItem passed (.ok message) = some passed' ∧
        id passed' = id passed ++ [message] := ⟨_, rfl, rfl⟩
  exact passed_rounds id consumer.consumeBody_fst hok (fun _ _ => ⟨_, rfl, rfl⟩) n results [] []

theorem replicated_eq {killSignal : ℕ → Bool} (hkill : ∀ n, killSignal n = false) (n : ℕ) :
    consumer.replicated results killSignal n =
      (beforeError (results.take n)).map consumer.message := by
  have hhandle (loop : SlaveLoop) (item : Except String CommunicationMessage) :
      ∃ loop', loop.handleItem killSignal item = some loop' ∧
        loop'.passed = loop.passed ++ item.toOption.toList := by
    cases item <;> simp [SlaveLoop.handleItem, hkill, Except.toOption]
  exact passed_rounds SlaveLoop.passed consumer.consumeBody_fst (fun loop m => hhandle loop (.ok m))
    (fun loop e => by simpa [Except.toOption] using hhandle loop (.error e)) n results [] ⟨0, []⟩

/-- **The loops pass on every message exactly if no message comes after an error.** -/
theorem passesAll_messages_iff {killSignal : ℕ → Bool} (hkill : ∀ n, killSignal n = false) :
    (PassesAll consumer.message results (consumer.routed results) ↔ NoMessageAfterError results) ∧
      (PassesAll consumer.message results (consumer.replicated results killSignal) ↔
        NoMessageAfterError results) :=
  ⟨passesAll_iff (consumer.routed_eq results), passesAll_iff (consumer.replicated_eq results hkill)⟩

def sampleDelivery : Delivery := { routingKey := "key", data := .ok "\x7b\x7d" }

/-- An error that comes last does no harm. -/
theorem passesAll_messages_error_last :
    PassesAll amqp.message (Seq.ofList [.ok sampleDelivery, .error "connection closed"])
        (amqp.routed (Seq.ofList [.ok sampleDelivery, .error "connection closed"])) ∧
      PassesAll amqp.message (Seq.ofList [.ok sampleDelivery, .error "connection closed"])
        (amqp.replicated (Seq.ofList [.ok sampleDelivery, .error "connection closed"]) fun _ => false) := by
  have hlast : NoMessageAfterError (Seq.ofList
      ([.ok sampleDelivery, .error "connection closed"] : List (Except String Delivery))) := by
    intro i j e a hij hi hj
    simp only [Seq.ofList_get?] at hi hj
    have hj' : j = 0 := by
      match j with
      | 0 => rfl
      | 1 => simp at hj
      | j + 2 => simp at hj
    omega
  obtain ⟨hrouted, hreplicated⟩ := passesAll_messages_iff amqp _ fun _ => rfl
  exact ⟨hrouted.mpr hlast, hreplicated.mpr hlast⟩

/-- A message after an error is lost. -/
theorem not_passesAll_error_first :
    ¬ PassesAll amqp.message (Seq.ofList [.error "connection closed", .ok sampleDelivery])
        (amqp.routed (Seq.ofList [.error "connection closed", .ok sampleDelivery])) ∧
      ¬ PassesAll amqp.message (Seq.ofList [.error "connection closed", .ok sampleDelivery])
        (amqp.replicated (Seq.ofList [.error "connection closed", .ok sampleDelivery])
          fun _ => false) := by
  have hlost : ¬ NoMessageAfterError (Seq.ofList
      ([.error "connection closed", .ok sampleDelivery] : List (Except String Delivery))) :=
    fun h => h 0 1 _ _ Nat.zero_lt_one rfl rfl
  rw [passesAll_iff (amqp.routed_eq _), passesAll_iff (amqp.replicated_eq _ fun _ => rfl)]
  exact ⟨hlost, hlost⟩

end CommonConsumer
end CommonDataLayer
