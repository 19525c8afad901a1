import CommonDataLayer.DbShrinkerPostgres.Main
import CommonDataLayer.QueryService.Psql

/-! # What queries show after a run

Alone on a table, a run leaves one row of every object, with the version and the schema of its newest
row. `queries_preserved`: the queries return the same objects as before, and merging what they
returned before into what they return after changes nothing.
-/
namespace CommonDataLayer.DbShrinkerPostgres
open Postgres QueryService
set_option autoImplicit false

/-- Every object has exactly one row, with the version and the schema of its newest row. -/
def OneRowEach (table table' : DataTable) : Prop :=
  ∀ id, match table.newest id with
    | none => table'.history id = []
    | some last => ∃ row, table'.history id = [row] ∧ row.version = last.version ∧
        row.schemaId = last.schemaId

inductive Request where
  | queryMultiple (objectIds : List String)
  | queryBySchema (schemaId : String)

def response (formats : Formats) (table : DataTable) : Request → Except Status ValueMap
  | .queryMultiple objectIds => respond (queryMultiple formats objectIds) table
  | .queryBySchema schemaId => respond (queryBySchema formats schemaId) table

/-- The documents of an object before and after. -/
structure StillSaid (table table' : DataTable) (id : Uuid) (before after : Row) : Prop where
  newest : table.newest id = some before
  only : table'.history id = [after]
  merged : merge after.payload before.payload = after.payload
  same : (table.history id).length = 1 → after.payload = before.payload

/-- The same objects, of which everything is still said; or the same error. -/
def SameShown (formats : Formats) (table table' : DataTable) :
    Except Status ValueMap → Except Status ValueMap → Prop
  | .ok values, .ok values' => (∀ key, (values key).isSome = (values' key).isSome) ∧
      ∀ key value value', values key = some value → values' key = some value' →
        ∃ id before after, key = id.toText ∧ StillSaid table table' id before after ∧
          value = formats.toBytes before.payload ∧ value' = formats.toBytes after.payload
  | .error status, .error status' => status = status'
  | _, _ => False

/-! ## One object -/

variable {table table' : DataTable} {id : Uuid} {formats : Formats}

/-- Merging the last document again changes nothing. -/
theorem merge_minimizeDocument {older : List (ℤ × Value)} {last : ℤ × Value} {document : Value}
    (hlast : Document last.2) (h : minimizeDocument (older ++ [last]) = some document) :
    merge document last.2 = document := by
  cases older with
  | nil =>
    cases h
    exact merge_self hlast
  | cons first older =>
    have hfold : (older ++ [last]).map (·.2) = older.map (·.2) ++ [last.2] := by
      rw [List.map_append, List.map_singleton]
    rw [minimizeDocument, List.cons_append, List.map_cons, hfold, Compaction.foldFirst,
      List.foldl_append, Option.some.injEq] at h
    rw [← h]
    exact merge_absorb hlast _

theorem Shrunk.stillSaid (h : Shrunk table table') (hdocuments : ∀ row ∈ table.rows,
    Document row.payload) {last : Row} (hlast : table.newest id = some last) :
    ∃ document, StillSaid table table' id last { last with payload := document } := by
  rcases h id with ⟨hnil, -⟩ | ⟨older, newest, document, hsplit, hdocument, hone⟩
  · rw [DataTable.newest, hnil] at hlast
    cases hlast
  · have hsame : newest = last := by
      rw [DataTable.newest, hsplit, List.getLast?_concat] at hlast
      exact Option.some.inj hlast
    subst hsame
    have hhistory : newest ∈ table.history id := by simp [hsplit]
    have hmem : newest ∈ table.rows := (DataTable.mem_history.mp hhistory).1
    have hselect : table.selectAll id = older.map (fun row => (row.version, row.payload)) ++
        [(newest.version, newest.payload)] := by
      rw [DataTable.selectAll, hsplit, List.map_append, List.map_singleton]
    rw [hselect] at hdocument
    refine ⟨document, hlast, hone, merge_minimizeDocument (hdocuments newest hmem) hdocument, ?_⟩
    intro hlength
    rw [hsplit, List.length_append, List.length_singleton] at hlength
    have holder : older = [] := List.eq_nil_of_length_eq_zero (by omega)
    rw [holder] at hdocument
    exact (Option.some.inj hdocument).symm

theorem StillSaid.newest' {before after : Row} (h : StillSaid table table' id before after) :
    table'.newest id = some after := by
  rw [DataTable.newest, h.only]
  rfl

theorem Shrunk.oneRowEach (h : Shrunk table table') : OneRowEach table table' := by
  intro id
  rcases h id with ⟨hnil, hnil'⟩ | ⟨older, last, document, hsplit, -, hone⟩
  · rw [DataTable.newest, hnil]
    exact hnil'
  · rw [DataTable.newest, hsplit, List.getLast?_concat]
    exact ⟨_, hone, rfl, rfl⟩

theorem Shrunk.newest_none (h : Shrunk table table') (hnone : table.newest id = none) :
    table'.newest id = none := by
  have hone := h.oneRowEach id
  rw [hnone] at hone
  rw [DataTable.newest, show table'.history id = [] from hone]
  rfl

/-! ## One selection -/

/-- The newest rows with a property that does not depend on the document. -/
structure Selects (table : DataTable) (P : Uuid → Uuid → Prop) (rows : List Row) : Prop where
  mem (row : Row) : row ∈ rows ↔
    table.newest row.objectId = some row ∧ P row.objectId row.schemaId

theorem Selects.one {P : Uuid → Uuid → Prop} {rows : List Row} (h : Selects table P rows) :
    ∀ a ∈ rows, ∀ b ∈ rows, a.objectId = b.objectId → a = b := by
  intro a ha b hb hid
  have hnewest := ((h.mem a).mp ha).1
  rw [hid, ((h.mem b).mp hb).1] at hnewest
  exact (Option.some.inj hnewest).symm

theorem Selects.collect {P : Uuid → Uuid → Prop} {rows : List Row} (h : Selects table P rows)
    {key : String} {value : List UInt8} :
    collectIdPayloadRows formats rows key = some value ↔ ∃ id row, key = id.toText ∧
      table.newest id = some row ∧ P id row.schemaId ∧ value = formats.toBytes row.payload := by
  rw [collectIdPayloadRows_eq_some h.one]
  constructor
  · rintro ⟨row, hrow, hkey, hvalue⟩
    obtain ⟨hnewest, hP⟩ := (h.mem row).mp hrow
    exact ⟨row.objectId, row, hkey, hnewest, hP, hvalue⟩
  · rintro ⟨id, row, hkey, hnewest, hP, hvalue⟩
    obtain ⟨⟨-, rfl⟩, -⟩ := DataTable.newest_eq_some.mp hnewest
    exact ⟨row, (h.mem row).mpr ⟨hnewest, hP⟩, hkey, hvalue⟩

theorem Shrunk.sameShown (h : Shrunk table table') (hdocuments : ∀ row ∈ table.rows,
    Document row.payload) {P : Uuid → Uuid → Prop} {rows rows' : List Row}
    (hrows : Selects table P rows) (hrows' : Selects table' P rows') :
    SameShown formats table table' (.ok (collectIdPayloadRows formats rows))
      (.ok (collectIdPayloadRows formats rows')) := by
  have hshown {key : String} {value : List UInt8}
      (hvalue : collectIdPayloadRows formats rows key = some value) :
      ∃ id before after, key = id.toText ∧ StillSaid table table' id before after ∧
        value = formats.toBytes before.payload ∧
        collectIdPayloadRows formats rows' key = some (formats.toBytes after.payload) := by
    obtain ⟨id, before, hkey, hnewest, hP, rfl⟩ := hrows.collect.mp hvalue
    obtain ⟨document, hsaid⟩ := h.stillSaid hdocuments hnewest
    exact ⟨id, before, _, hkey, hsaid, rfl, hrows'.collect.mpr ⟨id, _, hkey, hsaid.newest', hP, rfl⟩⟩
  have hback {key : String} {value' : List UInt8}
      (hvalue' : collectIdPayloadRows formats rows' key = some value') :
      ∃ value, collectIdPayloadRows formats rows key = some value := by
    obtain ⟨id, after, hkey, hnewest', hP, -⟩ := hrows'.collect.mp hvalue'
    cases hnewest : table.newest id with
    | none =>
      rw [h.newest_none hnewest] at hnewest'
      cases hnewest'
    | some before =>
      obtain ⟨document, hsaid⟩ := h.stillSaid hdocuments hnewest
      rw [hsaid.newest', Option.some.injEq] at hnewest'
      subst hnewest'
      exact ⟨_, hrows.collect.mpr ⟨id, before, hkey, hnewest, hP, rfl⟩⟩
  refine ⟨fun key => ?_, fun key value value' hvalue hvalue' => ?_⟩
  · rw [Bool.eq_iff_iff, Option.isSome_iff_exists, Option.isSome_iff_exists]
    constructor
    · rintro ⟨value, hvalue⟩
      obtain ⟨-, -, after, -, -, -, hafter⟩ := hshown hvalue
      exact ⟨_, hafter⟩
    · rintro ⟨value', hvalue'⟩
      exact hback hvalue'
  · obtain ⟨id, before, after, hkey, hsaid, hbefore, hafter⟩ := hshown hvalue
    rw [hvalue', Option.some.injEq] at hafter
    exact ⟨id, before, after, hkey, hsaid, hbefore, hafter⟩

/-! ## All queries -/

/-- After a run of the shrinker alone on a table, every object has one row, and every query shows the
same objects, with everything the newest document said. -/
theorem queries_preserved {order : List Uuid → List Uuid} (horder : ∀ ids, (order ids).Perm ids)
    (hdocuments : ∀ row ∈ table.rows, Document row.payload) (schema : String) :
    ∃ table', run order (main schema) table = (.ok (), table') ∧ OneRowEach table table' ∧
      ∀ formats request, SameShown formats table table' (response formats table request)
        (response formats table' request) := by
  obtain ⟨table', hrun, hshrunk⟩ := run_main horder schema table
  refine ⟨table', hrun, hshrunk.oneRowEach, fun formats request => ?_⟩
  cases request with
  | queryMultiple objectIds =>
    rw [response, response, respond_queryMultiple, respond_queryMultiple]
    cases objectIds.mapM formats.parseUuid with
    | error err => rfl
    | ok objectIds =>
      have hselects (table : DataTable) :
          Selects table (fun id _ => id ∈ objectIds) (table.selectMultiple objectIds) :=
        ⟨fun _ => DataTable.mem_selectMultiple⟩
      exact hshrunk.sameShown hdocuments (hselects table) (hselects table')
  | queryBySchema schemaId =>
    rw [response, response, respond_queryBySchema, respond_queryBySchema]
    cases formats.parseUuid schemaId with
    | error err => rfl
    | ok schemaId =>
      have hselects (table : DataTable) :
          Selects table (fun _ other => other = schemaId) (table.selectBySchema schemaId) :=
        ⟨fun _ => DataTable.mem_selectBySchema⟩
      exact hshrunk.sameShown hdocuments (hselects table) (hselects table')

/-- Two rows of one object. -/
def sampleTable : DataTable where
  rows := [⟨0, 1, 0, .object [("a", .null)]⟩, ⟨0, 2, 0, .object []⟩]
  primaryKey := by decide

theorem queries_preserved_sampleTable :
    ∃ table', run (fun ids => ids) (main "cdl") sampleTable = (.ok (), table') ∧
      OneRowEach sampleTable table' ∧
      ∀ formats request, SameShown formats sampleTable table' (response formats sampleTable request)
        (response formats table' request) := by
  refine queries_preserved (fun ids => .refl ids) ?_ "cdl"
  simp only [sampleTable, List.forall_mem_cons, List.not_mem_nil, false_imp_iff, implies_true,
    and_true]
  exact ⟨.object (by simp) (by simpa using .null), .object .nil (List.forall_mem_nil _)⟩

end CommonDataLayer.DbShrinkerPostgres
