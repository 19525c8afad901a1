import CommonDataLayer.Foundations.Program
import CommonDataLayer.Postgres.History
import CommonDataLayer.Wire.UuidText
import Mathlib.Data.List.Induction
import Mathlib.Logic.Function.Basic

/-! # The query service on PostgreSQL

`queryMultiple` and `queryBySchema` select the newest rows of some objects and collect them into a
map from the texts of the objects to the texts of their documents.
-/
namespace CommonDataLayer.QueryService
open Interaction Postgres
set_option autoImplicit false

inductive Code where
  | invalidArgument
  | internal
  deriving DecidableEq, Repr

structure Status where
  code : Code
  message : String
  deriving DecidableEq, Repr

inductive Select where
  | multiple (objectIds : List Uuid)
  | bySchema (schemaId : Uuid)

inductive Call where
  | connect
  | prepare (statement : Select)
  | query (statement : Select)

abbrev Answer : Call → Type
  | .connect => Except String Unit
  | .prepare _ => Except String Unit
  | .query _ => Except String (List Row)

abbrev Task (α : Type) : Type := ExceptT Status (Program Answer) α

/-- A call whose error becomes a status. -/
def tryCall {α : Type} (status : String → Status) (call : Program Answer (Except String α)) : Task α :=
  ExceptT.mk (call.bind fun r => .ret (r.mapError status))

def connect : Task Unit :=
  tryCall (fun err => ⟨.internal, s!"Unable to connect to database: {err}"⟩)
    (Program.perform Call.connect)

def makeQuery (statement : Select) : Task (List Row) := do
  connect
  tryCall (fun err => ⟨.internal, s!"Unable to prepare query statement: {err}"⟩)
    (Program.perform (Call.prepare statement))
  tryCall (fun err => ⟨.internal, s!"Unable to query data: {err}"⟩)
    (Program.perform (Call.query statement))

/-- `HashMap<String, Vec<u8>>`. -/
abbrev ValueMap : Type := String → Option (List UInt8)

/-- What the crates `uuid` and `serde_json` make of texts and documents. -/
structure Formats where
  parseUuid : String → Except String Uuid
  /-- `Value::to_string().into_bytes()`. -/
  toBytes : Value → List UInt8

def collectIdPayloadRows (formats : Formats) (rows : List Row) : ValueMap :=
  rows.foldl (fun values row => Function.update values row.objectId.toText
    (some (formats.toBytes row.payload))) fun _ => none

def parse {α : Type} (r : Except String α) : Task α :=
  ExceptT.mk (.ret (r.mapError fun err => ⟨.invalidArgument, err⟩))

def queryMultiple (formats : Formats) (objectIds : List String) : Task ValueMap := do
  let objectIds ← parse (objectIds.mapM formats.parseUuid)
  let rows ← makeQuery (.multiple objectIds)
  return collectIdPayloadRows formats rows

def queryBySchema (formats : Formats) (schemaId : String) : Task ValueMap := do
  let schemaId ← parse (formats.parseUuid schemaId)
  let rows ← makeQuery (.bySchema schemaId)
  return collectIdPayloadRows formats rows

/-! ## On a table -/

def Select.rows (table : DataTable) : Select → List Row
  | multiple objectIds => table.selectMultiple objectIds
  | bySchema schemaId => table.selectBySchema schemaId

def onTable : (q : Call) → DataTable → Answer q × DataTable
  | .connect, table => (.ok (), table)
  | .prepare _, table => (.ok (), table)
  | .query statement, table => (.ok (statement.rows table), table)

/-- The response of a database that can be reached. -/
def respond {α : Type} (x : Task α) (table : DataTable) : Except Status α :=
  (Program.run onTable x.run table).1

variable {formats : Formats} {table : DataTable}

theorem respond_queryMultiple (objectIds : List String) :
    respond (queryMultiple formats objectIds) table =
      match objectIds.mapM formats.parseUuid with
      | .ok objectIds => .ok (collectIdPayloadRows formats (table.selectMultiple objectIds))
      | .error err => .error ⟨.invalidArgument, err⟩ := by
  rw [queryMultiple]
  cases objectIds.mapM formats.parseUuid <;> rfl

theorem respond_queryBySchema (schemaId : String) :
    respond (queryBySchema formats schemaId) table =
      match formats.parseUuid schemaId with
      | .ok schemaId => .ok (collectIdPayloadRows formats (table.selectBySchema schemaId))
      | .error err => .error ⟨.invalidArgument, err⟩ := by
  rw [queryBySchema]
  cases formats.parseUuid schemaId <;> rfl

/-! ## Collected rows -/

/-- With one row for each object, the map has what the rows have. -/
theorem collectIdPayloadRows_eq_some {rows : List Row} {key : String} {value : List UInt8}
    (hone : ∀ a ∈ rows, ∀ b ∈ rows, a.objectId = b.objectId → a = b) :
    collectIdPayloadRows formats rows key = some value ↔
      ∃ row ∈ rows, key = row.objectId.toText ∧ value = formats.toBytes row.payload := by
  induction rows using List.reverseRecOn with
  | nil => simp [collectIdPayloadRows]
  | append_singleton rows last ih =>
    have ih := ih fun a ha b hb => hone a (List.mem_append_left _ ha) b (List.mem_append_left _ hb)
    rw [collectIdPayloadRows, List.foldl_append, List.foldl_cons, List.foldl_nil]
    by_cases hkey : key = last.objectId.toText
    · rw [hkey, Function.update_self, Option.some.injEq]
      constructor
      · exact fun h => ⟨last, List.mem_append_right _ List.mem_cons_self, rfl, h.symm⟩
      · rintro ⟨row, hrow, hid, rfl⟩
        rw [hone row hrow last (by simp) (Uuid.toText_injective hid.symm)]
    · rw [Function.update_of_ne hkey]
      refine ih.trans (exists_congr fun row => ?_)
      rw [List.mem_append, List.mem_singleton, or_and_right]
      refine (or_iff_left ?_).symm
      rintro ⟨rfl, hid, -⟩
      exact hkey hid

end CommonDataLayer.QueryService
