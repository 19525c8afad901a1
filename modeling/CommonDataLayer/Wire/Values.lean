import Mathlib.Data.Int.Notation
import Mathlib.Data.Nat.Notation

/-! # Identifiers, JSON values and messages

The values that the services exchange, and the parsers of `serde_json` they call. A parser is a
parameter (`SerdeJson`): nothing is assumed of it, so every result holds whatever a text parses to.

* `Uuid`: the 128 bits of an identifier, with the hyphenated text that `to_string` gives.
* `Value`: a JSON document. The members of an object are kept in key order, as in the map of
  `serde_json`.
* `RawValue`: the text of a document inside a message, not parsed any further.
* `AnyhowError`: an error under the contexts that were put around it.
-/
namespace CommonDataLayer
set_option autoImplicit false

abbrev Uuid : Type := BitVec 128

namespace Uuid

/-- The `n` lowest hexadecimal digits of a number, highest digit first. -/
def hexDigits : ℕ → ℕ → List Char
  | 0, _ => []
  | n + 1, x => hexDigits n (x / 16) ++ [Nat.digitChar (x % 16)]

/-- `Uuid::to_string`: hyphenated, in lower case. -/
def toText (id : Uuid) : String :=
  let digits := hexDigits 32 id.toNat
  String.ofList (digits.take 8 ++ '-' :: (digits.drop 8).take 4 ++ '-' :: (digits.drop 12).take 4 ++
    '-' :: (digits.drop 16).take 4 ++ '-' :: digits.drop 20)

end Uuid

/-- `serde_json::Number`; a float is given by its bits. -/
inductive Number where
  | posInt (n : UInt64)
  | negInt (n : Int64)
  | float (bits : UInt64)
  deriving DecidableEq, Repr

inductive Value where
  | null
  | bool (b : Bool)
  | number (n : Number)
  | string (text : String)
  | array (items : List Value)
  | object (members : List (String × Value))

namespace Value

def isArray : Value → Bool
  | array _ => true
  | _ => false

def asStr : Value → Option String
  | string text => some text
  | _ => none

end Value

structure RawValue where
  get : String
  deriving DecidableEq, Repr

/-! ## Messages -/

structure BorrowedInsertMessage where
  objectId : Uuid
  schemaId : Uuid
  timestamp : ℤ
  data : RawValue
  deriving DecidableEq, Repr

structure OwnedInsertMessage where
  objectId : Uuid
  schemaId : Uuid
  timestamp : ℤ
  data : Value

structure DataRouterInsertMessage where
  objectId : Uuid
  schemaId : Uuid
  data : RawValue
  deriving DecidableEq, Repr

/-- What `serde_json` makes of a text. An error is its text. -/
structure SerdeJson where
  value : String → Except String Value
  routerMessage : String → Except String DataRouterInsertMessage
  routerMessages : String → Except String (List DataRouterInsertMessage)
  insertMessage : String → Except String BorrowedInsertMessage
  /-- `from_slice` of a `RawValue`. -/
  rawValue : List UInt8 → Except String RawValue

/-- `BorrowedInsertMessage::to_owned`; on an error its `expect` panics. -/
def BorrowedInsertMessage.toOwned (json : SerdeJson) (m : BorrowedInsertMessage) :
    Except String OwnedInsertMessage := do
  let data ← json.value m.data.get
  return { objectId := m.objectId, schemaId := m.schemaId, timestamp := m.timestamp, data := data }

/-! ## Sample payloads

Two payloads that both services accept and the batch of them for the router, with what `serde_json`
makes of them, for runs on concrete input. -/

def sampleText : String :=
  "\x7b\"objectId\":\"00000000-0000-0000-0000-000000000000\"," ++
  "\"schemaId\":\"00000000-0000-0000-0000-000000000000\",\"timestamp\":0,\"data\":1\x7d"

def otherText : String :=
  "\x7b\"objectId\":\"00000000-0000-0000-0000-000000000001\"," ++
  "\"schemaId\":\"00000000-0000-0000-0000-000000000001\",\"timestamp\":0,\"data\":1\x7d"

def batchText : String := "[" ++ otherText ++ "," ++ sampleText ++ "]"

def sampleEntry : DataRouterInsertMessage := { objectId := 0, schemaId := 0, data := ⟨"1"⟩ }
def otherEntry : DataRouterInsertMessage := { objectId := 1, schemaId := 1, data := ⟨"1"⟩ }

def sampleInsert : BorrowedInsertMessage :=
  { objectId := 0, schemaId := 0, timestamp := 0, data := ⟨"1"⟩ }
def otherInsert : BorrowedInsertMessage :=
  { objectId := 1, schemaId := 1, timestamp := 0, data := ⟨"1"⟩ }

/-- The document of a payload whose object and schema have this identifier. -/
def sampleValue (id : Uuid) : Value :=
  .object [("data", .number (.posInt 1)), ("objectId", .string id.toText), ("schemaId", .string id.toText),
    ("timestamp", .number (.posInt 0))]

def sampleJson : SerdeJson where
  value text :=
    if text = sampleText then .ok (sampleValue 0)
    else if text = otherText then .ok (sampleValue 1)
    else if text = batchText then .ok (.array [sampleValue 1, sampleValue 0])
    else if text = "1" then .ok (.number (.posInt 1))
    else .error "expected value at line 1 column 1"
  routerMessage text :=
    if text = sampleText then .ok sampleEntry
    else if text = otherText then .ok otherEntry
    else .error "expected value at line 1 column 1"
  routerMessages text :=
    if text = batchText then .ok [otherEntry, sampleEntry] else .error "expected value at line 1 column 1"
  insertMessage text :=
    if text = sampleText then .ok sampleInsert
    else if text = otherText then .ok otherInsert
    else .error "expected value at line 1 column 1"
  rawValue bytes :=
    if bytes = [49] then .ok ⟨"1"⟩ else .error "expected value at line 1 column 1"

theorem batchText_ne : batchText ≠ sampleText ∧ batchText ≠ otherText := by decide

theorem value_batchText : sampleJson.value batchText = .ok (.array [sampleValue 1, sampleValue 0]) := by
  simp [sampleJson, batchText_ne]

theorem routerMessages_batchText : sampleJson.routerMessages batchText = .ok [otherEntry, sampleEntry] := by
  simp [sampleJson]

/-! ## Errors under contexts -/

inductive AnyhowError where
  | root (display : String)
  | context (text : String) (source : AnyhowError)
  deriving DecidableEq, Repr

/-- `anyhow::Context::context`. -/
def withContext {α : Type} (text : String) : Except AnyhowError α → Except AnyhowError α
  | .ok a => .ok a
  | .error e => .error (.context text e)

end CommonDataLayer
