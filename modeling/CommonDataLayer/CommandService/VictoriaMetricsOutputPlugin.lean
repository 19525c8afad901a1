import CommonDataLayer.CommandService.MessageRouter
import CommonDataLayer.VictoriaMetrics.Series

/-! # The VictoriaMetrics output plugin

`handleMessage` turns the payload of a message into the lines of the line protocol and sends them in
one request. A payload is an array of entries, each with fields and a time stamp.
-/
namespace CommonDataLayer.CommandService.VictoriaMetricsOutputPlugin
open Interaction VictoriaMetrics
set_option autoImplicit false

structure Payload where
  /-- In the order in which the map is iterated. -/
  fields : List (String × Value)
  ts : UInt64

inductive Error where
  | dataCannotBeParsed (err : String)
  | invalidFieldType
  | emptyFields
  deriving DecidableEq, Repr

def Error.display : Error → String
  | dataCannotBeParsed err => s!"Data cannot be parsed `{err}`"
  | invalidFieldType => "Value cannot be an object, array or null"
  | emptyFields => "Cannot handle empty payload"

/-- What `serde_json` makes of the texts and values. -/
structure Json where
  payloads : String → Except String (List Payload)
  display : Value → String

def isAllowed : Value → Bool
  | .array _ => false
  | .null => false
  | .object _ => false
  | _ => true

def getObjectFields (json : Json) (requestObject : Payload) :
    Except Error (List (String × String)) :=
  if requestObject.fields.isEmpty then .error .emptyFields
  else requestObject.fields.mapM fun field =>
    if isAllowed field.2 then .ok (field.1, json.display field.2) else .error .invalidFieldType

def buildLine (json : Json) (measurement tag : Uuid) (obj : Payload) : Except Error Line := do
  let fields ← getObjectFields json obj
  return { measurement := measurement.toText, tags := [("objectId", tag.toText)], fields := fields,
           ts := obj.ts }

/-- The lines of the text that `buildLineProtocol` returns. -/
def buildLines (json : Json) (measurement tag : Uuid) (payload : RawValue) :
    Except Error (List Line) := do
  let payloads ← (json.payloads payload.get).mapError .dataCannotBeParsed
  payloads.mapM (buildLine json measurement tag)

def buildLineProtocol (json : Json) (measurement tag : Uuid) (payload : RawValue) :
    Except Error String :=
  (buildLines json measurement tag payload).map fun lines => "\n".intercalate (lines.map Line.toText)

inductive StatusCode where
  | ok
  | noContent
  | other (code : ℕ)

structure Response where
  status : StatusCode
  text : Except String String

inductive Call where
  | post (query : String) (body : String)

abbrev Answer : Call → Type
  | .post _ _ => Except String Response

def sendData (query lineProtocol : String) : Program Answer Resolution := do
  match ← Program.perform (Call.post query lineProtocol) with
  | .error _ => return .commandServiceFailure
  | .ok response =>
    match response.status with
    | .ok => return .success
    | .noContent => return .success
    | .other _ => match response.text with
      | .ok text => return .storageLayerFailure text
      | .error err => return .storageLayerFailure s!"No description. Error `{err}`"

def handleMessage (json : Json) (msg : BorrowedInsertMessage) : Program Answer Resolution :=
  match buildLineProtocol json msg.schemaId msg.objectId msg.data with
  | .ok lineProtocol => sendData ("db=" ++ msg.schemaId.toText) lineProtocol
  | .error err => return .userFailure err.display msg.data.get

/-! ## The lines of a message -/

variable {json : Json} {schemaId objectId : Uuid} {payload : RawValue} {lines : List Line}

theorem getObjectFields_ne_nil {obj : Payload} {fields : List (String × String)}
    (h : getObjectFields json obj = .ok fields) : fields ≠ [] := by
  rw [getObjectFields] at h
  split at h
  · cases h
  · rename_i hne
    obtain ⟨hlength, -⟩ := mapM_ok h
    rw [List.isEmpty_iff] at hne
    exact fun hnil => hne (List.eq_nil_of_length_eq_zero (hlength ▸ hnil ▸ rfl))

theorem buildLine_ok {obj : Payload} {line : Line} (h : buildLine json schemaId objectId obj = .ok line) :
    line.measurement = schemaId.toText ∧ line.tags = [("objectId", objectId.toText)] ∧
      line.fields ≠ [] := by
  obtain ⟨fields, hfields, h⟩ := bind_eq_ok.mp h
  rw [← Except.ok.inj h]
  exact ⟨rfl, rfl, getObjectFields_ne_nil hfields⟩

theorem buildLines_ok (h : buildLines json schemaId objectId payload = .ok lines) :
    ∃ payloads, json.payloads payload.get = .ok payloads ∧ lines.length = payloads.length ∧
      ∀ line ∈ lines, line.measurement = schemaId.toText ∧
        line.tags = [("objectId", objectId.toText)] ∧ line.fields ≠ [] := by
  obtain ⟨payloads, hpayloads, h⟩ := bind_eq_ok.mp h
  obtain ⟨hlength, hlines⟩ := mapM_ok h
  cases hparse : json.payloads payload.get with
  | error err =>
    rw [hparse] at hpayloads
    cases hpayloads
  | ok parsed =>
    rw [hparse] at hpayloads
    cases hpayloads
    refine ⟨_, rfl, hlength, fun line hline => ?_⟩
    obtain ⟨obj, -, hobj⟩ := hlines line hline
    exact buildLine_ok hobj

end CommonDataLayer.CommandService.VictoriaMetricsOutputPlugin
