import CommonDataLayer.Foundations.GroupedMax
import CommonDataLayer.QueryService.Psql

/-! # The two document queries

`query_multiple` joins the greatest versions of some objects with the table, `query_by_schema`
compares each row of a schema with the greatest version of its object, and the database answers with
its rows in any order. `documentQueries_agree`: both show the newest rows, the second one of exactly
the objects whose newest row has the schema.
-/
namespace CommonDataLayer.QueryService
open Interaction Postgres GroupedMax
set_option autoImplicit false

/-- `SELECT object_id, max(version) as max FROM data WHERE object_id = ANY($1) GROUP BY object_id`. -/
def maxes (table : DataTable) (objectIds : List Uuid) : List (Uuid × ℤ) :=
  groupMax Row.objectId Row.version (table.rows.filter fun row => objectIds.contains row.objectId)

def Select.joined (table : DataTable) : Select → List Row
  | multiple objectIds => joinMax Row.objectId Row.version (maxes table objectIds) table.rows
  | bySchema schemaId =>
    correlatedMax Row.objectId Row.version (fun row => row.schemaId = schemaId) table.rows

/-- A database that can be reached, and answers with the rows in some order. -/
def onDatabase (order : List Row → List Row) : (q : Call) → DataTable → Answer q × DataTable
  | .connect, table => (.ok (), table)
  | .prepare _, table => (.ok (), table)
  | .query statement, table => (.ok (order (statement.joined table)), table)

def answer (order : List Row → List Row) {α : Type} (x : Task α) (table : DataTable) :
    Except Status α :=
  (Program.run (onDatabase order) x.run table).1

abbrev Newest (table : DataTable) (row : Row) : Prop :=
  Greatest Row.objectId Row.version table.rows row

/-- The object has a row. -/
def Known (table : DataTable) (id : Uuid) : Prop := ∃ row ∈ table.rows, row.objectId = id

/-- One entry for each object of a set, with the payload of its newest row. -/
structure ShowsNewest (formats : Formats) (table : DataTable) (objects : Uuid → Prop)
    (values : ValueMap) : Prop where
  shown (id : Uuid) : objects id → ∃ row, Newest table row ∧ row.objectId = id ∧
    values id.toText = some (formats.toBytes row.payload)
  only (key : String) : values key ≠ none → ∃ id, key = id.toText ∧ objects id

/-! ## The rows of an answer -/

variable {table : DataTable} {formats : Formats} {order : List Row → List Row} {row : Row} {id : Uuid}

theorem Newest.eq {a b : Row} (ha : Newest table a) (hb : Newest table b)
    (hid : a.objectId = b.objectId) : a = b :=
  Greatest.eq table.primaryKey ha hb hid

theorem mem_joined_multiple {objectIds : List Uuid} :
    row ∈ (Select.multiple objectIds).joined table ↔ Newest table row ∧ row.objectId ∈ objectIds := by
  rw [Select.joined, maxes, mem_joinMax (p := objectIds.contains), List.contains_iff_mem]

theorem mem_joined_bySchema {schemaId : Uuid} :
    row ∈ (Select.bySchema schemaId).joined table ↔ Newest table row ∧ row.schemaId = schemaId := by
  rw [Select.joined, mem_correlatedMax, decide_eq_true_eq]

/-- Collected newest rows of some objects, in any order. -/
theorem showsNewest_collect {rows : List Row} {P : Row → Prop} {objects : Uuid → Prop}
    (hrows : ∀ row, row ∈ rows ↔ Newest table row ∧ P row)
    (hobjects : ∀ id, objects id ↔ ∃ row, Newest table row ∧ row.objectId = id ∧ P row) :
    ShowsNewest formats table objects (collectIdPayloadRows formats rows) := by
  have hone : ∀ a ∈ rows, ∀ b ∈ rows, a.objectId = b.objectId → a = b := fun a ha b hb =>
    ((hrows a).mp ha).1.eq ((hrows b).mp hb).1
  constructor
  · intro id hid
    obtain ⟨row, hnewest, rfl, hP⟩ := (hobjects id).mp hid
    have hmem : row ∈ rows := (hrows row).mpr ⟨hnewest, hP⟩
    exact ⟨row, hnewest, rfl, (collectIdPayloadRows_eq_some hone).mpr ⟨row, hmem, rfl, rfl⟩⟩
  · intro key hkey
    obtain ⟨value, hvalue⟩ := Option.ne_none_iff_exists'.mp hkey
    obtain ⟨row, hmem, rfl, -⟩ := (collectIdPayloadRows_eq_some hone).mp hvalue
    obtain ⟨hnewest, hP⟩ := (hrows row).mp hmem
    exact ⟨row.objectId, rfl, (hobjects _).mpr ⟨row, hnewest, rfl, hP⟩⟩

/-- What two maps show of one object is the same. -/
theorem ShowsNewest.agree {objects objects' : Uuid → Prop} {values values' : ValueMap}
    (h : ShowsNewest formats table objects values) (h' : ShowsNewest formats table objects' values')
    (hid : objects id) (hid' : objects' id) : values id.toText = values' id.toText := by
  obtain ⟨row, hnewest, hobject, hvalue⟩ := h.shown id hid
  obtain ⟨row', hnewest', hobject', hvalue'⟩ := h'.shown id hid'
  rw [hvalue, hvalue', hnewest.eq hnewest' (hobject.trans hobject'.symm)]

theorem answer_queryMultiple {texts : List String} {ids : List Uuid}
    (hids : texts.mapM formats.parseUuid = .ok ids) :
    answer order (queryMultiple formats texts) table =
      .ok (collectIdPayloadRows formats (order ((Select.multiple ids).joined table))) := by
  rw [queryMultiple, hids]
  rfl

theorem answer_queryBySchema {text : String} {schemaId : Uuid}
    (hid : formats.parseUuid text = .ok schemaId) :
    answer order (queryBySchema formats text) table =
      .ok (collectIdPayloadRows formats (order ((Select.bySchema schemaId).joined table))) := by
  rw [queryBySchema, hid]
  rfl

/-! ## The two queries -/

theorem showsNewest_queryMultiple (horder : ∀ rows, (order rows).Perm rows) {texts : List String}
    {ids : List Uuid} (hids : texts.mapM formats.parseUuid = .ok ids) :
    ∃ values, answer order (queryMultiple formats texts) table = .ok values ∧
      ShowsNewest formats table (fun id => id ∈ ids ∧ Known table id) values := by
  refine ⟨_, answer_queryMultiple hids, showsNewest_collect (P := fun row => row.objectId ∈ ids) ?_ ?_⟩
  · exact fun row => (horder _).mem_iff.trans mem_joined_multiple
  · intro id
    constructor
    · rintro ⟨hid, row, hrow, rfl⟩
      obtain ⟨newest, hnewest, hobject⟩ :
          ∃ newest, Newest table newest ∧ newest.objectId = row.objectId := exists_greatest hrow
      refine ⟨newest, hnewest, hobject, ?_⟩
      rw [hobject]
      exact hid
    · rintro ⟨row, hnewest, rfl, hid⟩
      exact ⟨hid, row, hnewest.mem, rfl⟩

theorem showsNewest_queryBySchema (horder : ∀ rows, (order rows).Perm rows) {text : String}
    {schemaId : Uuid} (hid : formats.parseUuid text = .ok schemaId) :
    ∃ values, answer order (queryBySchema formats text) table = .ok values ∧
      ShowsNewest formats table
        (fun id => ∃ row, Newest table row ∧ row.objectId = id ∧ row.schemaId = schemaId) values := by
  refine ⟨_, answer_queryBySchema hid, showsNewest_collect (P := fun row => row.schemaId = schemaId)
    ?_ fun id => Iff.rfl⟩
  exact fun row => (horder _).mem_iff.trans mem_joined_bySchema

/-- **The two queries agree.** Both show newest rows, and for an object that both show the same. -/
theorem documentQueries_agree (horder : ∀ rows, (order rows).Perm rows) (formats : Formats)
    (table : DataTable) :
    (∀ texts ids, texts.mapM formats.parseUuid = .ok ids →
      ∃ values, answer order (queryMultiple formats texts) table = .ok values ∧
        ShowsNewest formats table (fun id => id ∈ ids ∧ Known table id) values) ∧
    ∀ text schemaId, formats.parseUuid text = .ok schemaId →
      ∃ values, answer order (queryBySchema formats text) table = .ok values ∧
        ShowsNewest formats table
          (fun id => ∃ row, Newest table row ∧ row.objectId = id ∧ row.schemaId = schemaId) values ∧
        ∀ texts ids values', texts.mapM formats.parseUuid = .ok ids →
          answer order (queryMultiple formats texts) table = .ok values' →
          ∀ id ∈ ids, values id.toText ≠ none → values id.toText = values' id.toText := by
  refine ⟨fun texts ids => showsNewest_queryMultiple horder, fun text schemaId hschema => ?_⟩
  obtain ⟨values, hvalues, hshows⟩ := showsNewest_queryBySchema horder hschema
  refine ⟨values, hvalues, hshows, fun texts ids values' hids hvalues' id hid hsome => ?_⟩
  obtain ⟨_, hanswer, hshows'⟩ : ∃ other, answer order (queryMultiple formats texts) table = .ok other ∧
      _ := showsNewest_queryMultiple horder hids
  rw [hvalues', Except.ok.injEq] at hanswer
  subst hanswer
  obtain ⟨other, hother, hobject⟩ := hshows.only id.toText hsome
  obtain rfl := Uuid.toText_injective hother
  have hknown : Known table id := by
    obtain ⟨row, hnewest, hrow, -⟩ := hobject
    exact ⟨row, hnewest.mem, hrow⟩
  exact hshows.agree hshows' hobject ⟨hid, hknown⟩

/-- An object that moved from schema 7 to schema 8, and one that did not. -/
def movedTable : DataTable where
  rows := [⟨1, 1, 7, .object []⟩, ⟨2, 5, 7, .null⟩, ⟨1, 2, 8, .null⟩]
  primaryKey := by decide

def movedFormats : Formats where
  parseUuid text := if text = Uuid.toText 7 then .ok 7 else .error "invalid length"
  toBytes _ := "null".toUTF8.toList

/-- Only the object that is still there is shown. -/
theorem documentQueries_agree_movedTable :
    ∃ values, answer List.reverse (queryBySchema movedFormats (Uuid.toText 7)) movedTable = .ok values ∧
      values (Uuid.toText 1) = none ∧ values (Uuid.toText 2) = some "null".toUTF8.toList := by
  have hparse : movedFormats.parseUuid (Uuid.toText 7) = .ok 7 := by simp [movedFormats]
  obtain ⟨values, hvalues, hshows, -⟩ :=
    (documentQueries_agree List.reverse_perm movedFormats movedTable).2 (Uuid.toText 7) 7 hparse
  have hnewest (row : Row) (hrow : row ∈ movedTable.rows) :
      maxValue Row.objectId Row.version movedTable.rows row.objectId = some row.version ↔
        Newest movedTable row := maxValue_eq_value hrow
  refine ⟨values, hvalues, ?_, ?_⟩
  · by_contra hsome
    obtain ⟨id, hid, row, hrow, rfl, hschema⟩ := hshows.only _ hsome
    have hone : row.objectId = 1 := (Uuid.toText_injective hid).symm
    have hall : ∀ row ∈ movedTable.rows, row.objectId = 1 → row.schemaId = 7 →
        maxValue Row.objectId Row.version movedTable.rows row.objectId ≠ some row.version := by
      decide
    exact hall row hrow.mem hone hschema ((hnewest row hrow.mem).mpr hrow)
  · have hmem : (⟨2, 5, 7, .null⟩ : Row) ∈ movedTable.rows := by simp [movedTable]
    obtain ⟨_, -, -, hvalue⟩ := hshows.shown 2 ⟨_, (hnewest _ hmem).mp (by decide), rfl, rfl⟩
    exact hvalue

end CommonDataLayer.QueryService
