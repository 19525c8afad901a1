import CommonDataLayer.Foundations.Interference
import CommonDataLayer.QueryService.DocumentQueries

/-! # The two document queries, while rows come and go

A query makes one `SELECT`, between whose beginning and end others may change the tables of the
services. `observed_queryMultiple`, `observed_queryBySchema`: it returns what one of these moments shows.
-/
namespace CommonDataLayer.QueryService
open Interaction Relation Postgres GroupedMax
set_option autoImplicit false

/-! ## What the maps tell -/

/-- Exactly the payloads of the given rows, under their objects. -/
def Tells (formats : Formats) (shown : Uuid → Option Row) (values : ValueMap) : Prop :=
  ∀ key bytes, values key = some bytes ↔
    ∃ id row, key = id.toText ∧ shown id = some row ∧ bytes = formats.toBytes row.payload

theorem newest_iff {table : DataTable} {row : Row} :
    Newest table row ↔ table.newest row.objectId = some row := by
  rw [DataTable.newest_eq_some]
  exact ⟨fun h => ⟨⟨h.mem, rfl⟩, (maxValue_eq_value h.mem).mpr h⟩,
    fun h => (maxValue_eq_value h.1.1).mp h.2⟩

theorem objectId_of_newest {table : DataTable} {id : Uuid} {row : Row} (h : table.newest id = some row) :
    row.objectId = id :=
  (DataTable.newest_eq_some.mp h).1.2

theorem tells_of_showsNewest {formats : Formats} {table : DataTable} {objects : Uuid → Prop}
    {values : ValueMap} {shown : Uuid → Option Row} (h : ShowsNewest formats table objects values)
    (hshown : ∀ id row, shown id = some row ↔ objects id ∧ table.newest id = some row) :
    Tells formats shown values := by
  have hvalue {id : Uuid} (hid : objects id) : ∃ row, table.newest id = some row ∧
      values id.toText = some (formats.toBytes row.payload) := by
    obtain ⟨row, hnewest, rfl, hvalue⟩ := h.shown id hid
    exact ⟨row, newest_iff.mp hnewest, hvalue⟩
  intro key bytes
  constructor
  · intro hbytes
    obtain ⟨id, rfl, hid⟩ := h.only key (by rw [hbytes]; simp)
    obtain ⟨row, hnewest, hrow⟩ := hvalue hid
    rw [hrow, Option.some.injEq] at hbytes
    exact ⟨id, row, rfl, (hshown id row).mpr ⟨hid, hnewest⟩, hbytes.symm⟩
  · rintro ⟨id, row, rfl, hrow, rfl⟩
    obtain ⟨hid, hnewest⟩ := (hshown id row).mp hrow
    obtain ⟨row', hnewest', hrow'⟩ := hvalue hid
    rw [hnewest, Option.some.injEq] at hnewest'
    rw [hrow', hnewest']

/-- The newest rows of some objects. -/
def newestOf (table : DataTable) (ids : List Uuid) (id : Uuid) : Option Row :=
  if ids.contains id then table.newest id else none

theorem newestOf_eq_some {table : DataTable} {ids : List Uuid} {id : Uuid} {row : Row} :
    newestOf table ids id = some row ↔ id ∈ ids ∧ table.newest id = some row := by
  rw [newestOf, Option.ite_none_right_eq_some, List.contains_iff_mem]

/-- The newest rows that have a schema. -/
def newestWith (table : DataTable) (schemaId id : Uuid) : Option Row :=
  (table.newest id).filter fun row => row.schemaId = schemaId

section Tells
variable {formats : Formats} {table : DataTable} {order : List Row → List Row}

theorem tells_queryMultiple (horder : ∀ rows, (order rows).Perm rows) {texts : List String}
    {ids : List Uuid} (hids : texts.mapM formats.parseUuid = .ok ids) :
    ∃ values, answer order (queryMultiple formats texts) table = .ok values ∧
      Tells formats (newestOf table ids) values := by
  obtain ⟨values, hvalues, hshows⟩ := showsNewest_queryMultiple horder hids
  refine ⟨values, hvalues, tells_of_showsNewest hshows fun id row => ?_⟩
  rw [newestOf_eq_some]
  constructor
  · rintro ⟨hid, hrow⟩
    exact ⟨⟨hid, row, (DataTable.newest_eq_some.mp hrow).1⟩, hrow⟩
  · rintro ⟨⟨hid, -⟩, hrow⟩
    exact ⟨hid, hrow⟩

theorem tells_queryBySchema (horder : ∀ rows, (order rows).Perm rows) {text : String}
    {schemaId : Uuid} (hid : formats.parseUuid text = .ok schemaId) :
    ∃ values, answer order (queryBySchema formats text) table = .ok values ∧
      Tells formats (newestWith table schemaId) values := by
  obtain ⟨values, hvalues, hshows⟩ := showsNewest_queryBySchema horder hid
  refine ⟨values, hvalues, tells_of_showsNewest hshows fun id row => ?_⟩
  rw [newestWith, Option.filter_eq_some_iff, decide_eq_true_eq]
  constructor
  · rintro ⟨hrow, hschema⟩
    obtain rfl := objectId_of_newest hrow
    exact ⟨⟨row, newest_iff.mpr hrow, rfl, hschema⟩, hrow⟩
  · rintro ⟨⟨other, hother, rfl, hschema⟩, hrow⟩
    rw [newest_iff.mp hother, Option.some.injEq] at hrow
    subst hrow
    exact ⟨newest_iff.mp hother, hschema⟩

/-- Rows in another order are an order of the rows. -/
theorem exists_order {rows joined : List Row} (h : rows.Perm joined) :
    ∃ order : List Row → List Row, (∀ l, (order l).Perm l) ∧ order joined = rows := by
  classical
  refine ⟨fun l => if l = joined then rows else l, fun l => ?_, if_pos rfl⟩
  show (if l = joined then rows else l).Perm l
  split
  · rename_i heq
    rw [heq]
    exact h
  · exact .refl _

theorem tells_rows_multiple {texts : List String} {ids : List Uuid} {rows : List Row}
    (hids : texts.mapM formats.parseUuid = .ok ids) (h : rows.Perm ((Select.multiple ids).joined table)) :
    Tells formats (newestOf table ids) (collectIdPayloadRows formats rows) := by
  obtain ⟨order, horder, hrows⟩ := exists_order h
  obtain ⟨values, hvalues, htells⟩ := tells_queryMultiple horder hids
  rw [answer_queryMultiple hids, hrows, Except.ok.injEq] at hvalues
  rwa [hvalues]

theorem tells_rows_bySchema {text : String} {schemaId : Uuid} {rows : List Row}
    (hid : formats.parseUuid text = .ok schemaId) (h : rows.Perm ((Select.bySchema schemaId).joined table)) :
    Tells formats (newestWith table schemaId) (collectIdPayloadRows formats rows) := by
  obtain ⟨order, horder, hrows⟩ := exists_order h
  obtain ⟨values, hvalues, htells⟩ := tells_queryBySchema horder hid
  rw [answer_queryBySchema hid, hrows, Except.ok.injEq] at hvalues
  rwa [hvalues]

end Tells

/-! ## On tables that change -/

/-- The tables of the query services, by the addresses of the services. -/
abbrev Tables : Type := String → DataTable

/-- A good answer, or an error where calls can fail. -/
def Replies {α ε : Type} (failing : Prop) (good : α → Prop) (answer : Except ε α) : Prop :=
  (∃ a, answer = .ok a ∧ good a) ∨ (failing ∧ ∃ e, answer = .error e)

/-- The database of the service at an address; it returns its rows in any order. -/
def Selects (failing : Prop) (addr : String) : (q : Call) → Tables → Answer q → Tables → Prop
  | .connect, tables, answer, tables' => tables' = tables ∧ Replies failing (fun _ => True) answer
  | .prepare _, tables, answer, tables' => tables' = tables ∧ Replies failing (fun _ => True) answer
  | .query statement, tables, answer, tables' => tables' = tables ∧
      Replies failing (fun rows => rows.Perm (statement.joined (tables addr))) answer

section Observed
variable {Changes : Tables → Tables → Prop} {failing : Prop} {addr : String} {tables tables' : Tables}
  {formats : Formats} {α ε : Type}

theorem Replies.observed {P : Tables → α → Prop} {answer : Except ε α}
    (h : Replies failing (P tables) answer) : Observed Changes failing P tables answer tables := by
  obtain ⟨a, rfl, ha⟩ | ⟨hfailing, he⟩ := h
  · exact .inl ⟨a, tables, rfl, .refl, ha, .refl⟩
  · exact .inr ⟨hfailing, he, .refl⟩

theorem observed_connect {r : Except Status Unit}
    (h : Interleaved Changes (Selects failing addr) connect.run tables r tables') :
    Observed Changes failing (fun _ _ => True) tables r tables' := by
  obtain ⟨before, answer, after, hbefore, ⟨rfl, hreplies⟩, hafter, rfl⟩ := interleaved_perform_ret h
  exact .head hbefore ((Replies.observed hreplies).mapError _ |>.tail hafter)

theorem observed_makeQuery {statement : Select} {r : Except Status (List Row)}
    (h : Interleaved Changes (Selects failing addr) (makeQuery statement).run tables r tables') :
    Observed Changes failing (fun mid rows => rows.Perm (statement.joined (mid addr))) tables r tables' := by
  refine Observed.bind h (fun _ _ => observed_connect) fun _ seen mid _ _ hmid hrest => .head hmid ?_
  refine Observed.bind (P := fun _ _ => True) hrest (fun first mid hfirst => ?_)
    fun _ seen mid _ _ hmid hrest => .head hmid ?_
  · obtain ⟨before, answer, after, hbefore, ⟨rfl, hreplies⟩, hafter, rfl⟩ := interleaved_perform_ret hfirst
    exact .head hbefore ((Replies.observed hreplies).mapError _ |>.tail hafter)
  · obtain ⟨before, answer, after, hbefore, ⟨rfl, hreplies⟩, hafter, rfl⟩ := interleaved_perform_ret hrest
    exact .head hbefore ((Replies.observed hreplies).mapError _ |>.tail hafter)

theorem observed_queryMultiple {texts : List String} {ids : List Uuid} {r : Except Status ValueMap}
    (hids : texts.mapM formats.parseUuid = .ok ids)
    (h : Interleaved Changes (Selects failing addr) (queryMultiple formats texts).run tables r tables') :
    Observed Changes failing (fun mid values => Tells formats (newestOf (mid addr) ids) values)
      tables r tables' := by
  rw [queryMultiple, hids] at h
  refine Observed.bind (x := makeQuery (.multiple ids)) h (fun _ _ => observed_makeQuery) ?_
  intro rows seen mid _ hrows hmid hrest
  obtain ⟨rfl, hlater⟩ := interleaved_ret hrest
  exact .inl ⟨_, seen, rfl, .refl, tells_rows_multiple hids hrows, hmid.trans hlater⟩

theorem observed_queryBySchema {text : String} {schemaId : Uuid} {r : Except Status ValueMap}
    (hid : formats.parseUuid text = .ok schemaId)
    (h : Interleaved Changes (Selects failing addr) (queryBySchema formats text).run tables r tables') :
    Observed Changes failing (fun mid values => Tells formats (newestWith (mid addr) schemaId) values)
      tables r tables' := by
  rw [queryBySchema, hid] at h
  refine Observed.bind (x := makeQuery (.bySchema schemaId)) h (fun _ _ => observed_makeQuery) ?_
  intro rows seen mid _ hrows hmid hrest
  obtain ⟨rfl, hlater⟩ := interleaved_ret hrest
  exact .inl ⟨_, seen, rfl, .refl, tells_rows_bySchema hid hrows, hmid.trans hlater⟩

end Observed
end CommonDataLayer.QueryService
