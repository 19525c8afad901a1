import CommonDataLayer.CommandService.MessageRouter

/-! # The Druid output plugin

The payload of a message is an array of entries, each of which becomes a record for a Kafka topic.
`handleMessage` sends the records one after the other, waits for each of them, collects what came of
it, and returns a success.
-/
namespace CommonDataLayer.CommandService.DruidOutputPlugin
open Interaction
set_option autoImplicit false

structure TimeseriesInputMessage where
  fields : Value
  ts : UInt64

structure DruidOutputMessage where
  fields : Value
  ts : UInt64
  objectId : Uuid
  schemaId : Uuid

/-- What is sent; the payload is kept as what was serialised. -/
structure FutureRecord where
  topic : String
  partition : Option ℤ
  payload : DruidOutputMessage
  key : String
  timestamp : ℤ
  headers : Option (List (String × List UInt8))

/-- What `serde_json` makes of the text of a document. -/
structure Json where
  messages : String → Except String (List TimeseriesInputMessage)

inductive Call where
  | send (record : FutureRecord)

abbrev Answer : Call → Type
  | .send _ => Except String Unit

def deserializePayloads (json : Json) (msg : BorrowedInsertMessage) :
    Except Resolution (List DruidOutputMessage) :=
  match json.messages msg.data.get with
  | .ok values => .ok (values.map fun payload =>
      { fields := payload.fields, ts := payload.ts, objectId := msg.objectId, schemaId := msg.schemaId })
  | .error err => .error (.userFailure err msg.data.get)

def toRecord (topic : String) (msg : BorrowedInsertMessage) (payload : DruidOutputMessage) :
    FutureRecord :=
  { topic := topic, partition := none, payload := payload, key := msg.objectId.toText,
    timestamp := msg.timestamp, headers := none }

def sendRecord (record : FutureRecord) : Program Answer (Except Resolution Resolution) := do
  match ← Program.perform (Call.send record) with
  | .error err => return .error (.storageLayerFailure err)
  | .ok () => return .ok .success

/-- The stream of the sends, collected. -/
def sendAll : List FutureRecord → Program Answer (List (Except Resolution Resolution))
  | [] => return []
  | record :: records => do
    let result ← sendRecord record
    let results ← sendAll records
    return result :: results

def handleMessage (json : Json) (topic : String) (msg : BorrowedInsertMessage) :
    Program Answer Resolution := do
  match deserializePayloads json msg with
  | .error err => return err
  | .ok payloads =>
    let _results ← sendAll (payloads.map (toRecord topic msg))
    return .success

/-! ## The calls -/

variable {records : List FutureRecord} {t : List (Event Answer)}

/-- Every record is sent, whatever came of the ones before it. -/
theorem returns_sendAll {results : List (Except Resolution Resolution)}
    (h : Returns (sendAll records) t results) :
    List.Forall₂ (fun record event => event.1 = Call.send record) records t := by
  induction records generalizing t results with
  | nil =>
    obtain ⟨rfl, -⟩ := steps_ret.mp h
    exact .nil
  | cons record records ih =>
    obtain ⟨result, t₁, t₂, rfl, h₁, h₂⟩ := returns_bind.mp h
    obtain ⟨rest, t₃, t₄, rfl, h₃, h₄⟩ := returns_bind.mp h₂
    obtain ⟨answer, t₅, rfl, h₅⟩ := returns_call.mp h₁
    have hnil : t₅ = [] := by
      cases answer with
      | error err => exact (steps_ret.mp h₅).1
      | ok _ => exact (steps_ret.mp h₅).1
    obtain ⟨rfl, -⟩ := steps_ret.mp h₄
    rw [hnil, List.append_nil]
    exact .cons rfl (ih h₃)

/-- The answers of the sends, in any pattern. -/
theorem exists_returns_sendAll (answer : FutureRecord → Except String Unit) (records : List FutureRecord) :
    ∃ results, Returns (sendAll records)
      (records.map fun record => (⟨.send record, answer record⟩ : Event Answer)) results := by
  induction records with
  | nil => exact ⟨[], .refl _⟩
  | cons record records ih =>
    obtain ⟨results, h⟩ := ih
    have hrecord : ∃ result, Returns (sendRecord record) [⟨.send record, answer record⟩] result := by
      cases hanswer : answer record with
      | error err => exact ⟨_, .call (.refl _)⟩
      | ok _ => exact ⟨_, .call (.refl _)⟩
    obtain ⟨result, hresult⟩ := hrecord
    refine ⟨result :: results, returns_bind.mpr ⟨result, _, _, rfl, hresult, ?_⟩⟩
    exact returns_bind.mpr ⟨results, _, [], (List.append_nil _).symm, h, .refl _⟩

/-- An unparsable payload is a failure of the user; otherwise the result is a success, whatever became
of the records. -/
theorem returns_handleMessage {json : Json} {topic : String} {msg : BorrowedInsertMessage}
    {r : Resolution} (h : Returns (handleMessage json topic msg) t r) :
    (∃ err, json.messages msg.data.get = .error err ∧ t = [] ∧ r = .userFailure err msg.data.get) ∨
      ∃ payloads, deserializePayloads json msg = .ok payloads ∧ r = .success ∧
        List.Forall₂ (fun record event => event.1 = Call.send record)
          (payloads.map (toRecord topic msg)) t := by
  unfold handleMessage deserializePayloads at h
  unfold deserializePayloads
  cases hmessages : json.messages msg.data.get with
  | error err =>
    rw [hmessages] at h
    obtain ⟨rfl, hr⟩ := steps_ret.mp h
    cases hr
    exact .inl ⟨err, rfl, rfl, rfl⟩
  | ok values =>
    rw [hmessages] at h
    obtain ⟨results, t₁, t₂, rfl, h₁, h₂⟩ := returns_bind.mp h
    obtain ⟨rfl, hr⟩ := steps_ret.mp h₂
    cases hr
    rw [List.append_nil]
    exact .inr ⟨_, rfl, rfl, returns_sendAll h₁⟩

end CommonDataLayer.CommandService.DruidOutputPlugin
