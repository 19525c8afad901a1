import Mathlib.Data.List.Nodup
import CommonDataLayer.Wire.Values

/-! # The data table

The table `data` of `init.sql`, whose primary key is a field of the structure, and the statements
that are run on it: the `INSERT` of the PostgreSQL output plugin and the `SELECT` of
`query_multiple`, which joins every object with its greatest version.
-/
namespace CommonDataLayer.Postgres
set_option autoImplicit false

structure Row where
  objectId : Uuid
  version : ℤ
  schemaId : Uuid
  payload : Value

/-- `PRIMARY KEY (object_id, version)`. -/
def Row.key (row : Row) : Uuid × ℤ := (row.objectId, row.version)

structure DataTable where
  rows : List Row
  primaryKey : (rows.map Row.key).Nodup

namespace DataTable

def empty : DataTable := { rows := [], primaryKey := .nil }

/-- What the client makes of a unique violation. -/
def uniqueViolation : String :=
  "db error: ERROR: duplicate key value violates unique constraint \"data_pkey\""

def insert (table : DataTable) (row : Row) : Except String DataTable :=
  if h : row.key ∈ table.rows.map Row.key then .error uniqueViolation
  else .ok
    { rows := table.rows ++ [row]
      primaryKey := by
        rw [List.map_append, List.nodup_append]
        refine ⟨table.primaryKey, List.nodup_singleton _, ?_⟩
        rintro a ha b hb rfl
        exact h (List.mem_singleton.mp hb ▸ ha) }

/-- `max(version)` over the rows of an object. -/
def maxVersion (table : DataTable) (objectId : Uuid) : Option ℤ :=
  ((table.rows.filter fun row => row.objectId = objectId).map Row.version).max?

/-- The rows that the `SELECT` of `query_multiple` yields. -/
def selectMultiple (table : DataTable) (objectIds : List Uuid) : List Row :=
  table.rows.filter fun row =>
    row.objectId ∈ objectIds ∧ table.maxVersion row.objectId = some row.version

/-! ## Results of the statements -/

theorem insert_eq_ok {table table' : DataTable} {row : Row} :
    table.insert row = .ok table' ↔
      row.key ∉ table.rows.map Row.key ∧ table'.rows = table.rows ++ [row] := by
  unfold insert
  split
  · rename_i h
    simp only [reduceCtorEq, h, not_true_eq_false, false_and]
  · rename_i h
    simp only [Except.ok.injEq, h, not_false_eq_true, true_and]
    constructor
    · rintro rfl
      rfl
    · intro hrows
      cases table'
      simp only at hrows
      subst hrows
      rfl

/-- A row is the only one with its key. -/
theorem filter_key {rows : List Row} (nodup : (rows.map Row.key).Nodup) {row : Row}
    (h : row ∈ rows) : rows.filter (fun other => other.key = row.key) = [row] := by
  induction rows with
  | nil => cases h
  | cons first rows ih =>
    rw [List.map_cons, List.nodup_cons] at nodup
    rcases List.mem_cons.mp h with rfl | h
    · rw [List.filter_cons_of_pos (by simp), List.filter_eq_nil_iff.mpr]
      intro other hother heq
      exact nodup.1 (List.mem_map.mpr ⟨other, hother, by simpa using heq⟩)
    · rw [List.filter_cons_of_neg, ih nodup.2 h]
      intro heq
      exact nodup.1 (List.mem_map.mpr ⟨row, h, by simpa using Eq.symm (of_decide_eq_true heq)⟩)

/-- The row of an object with the greatest version is the one that is selected. -/
theorem selectMultiple_singleton {table : DataTable} {row : Row} (h : row ∈ table.rows)
    (greatest : ∀ other ∈ table.rows, other.objectId = row.objectId →
      other.version ≤ row.version) : table.selectMultiple [row.objectId] = [row] := by
  have hmax : table.maxVersion row.objectId = some row.version := by
    refine List.max?_eq_some_iff.mpr ⟨?_, ?_⟩
    · exact List.mem_map.mpr ⟨row, List.mem_filter.mpr ⟨h, by simp⟩, rfl⟩
    · intro version hversion
      obtain ⟨other, hother, rfl⟩ := List.mem_map.mp hversion
      obtain ⟨hmem, hid⟩ := List.mem_filter.mp hother
      exact greatest other hmem (of_decide_eq_true hid)
  rw [← filter_key table.primaryKey h]
  unfold selectMultiple
  refine List.filter_congr fun other _ => ?_
  rw [decide_eq_decide, List.mem_singleton]
  simp only [Row.key, Prod.mk.injEq]
  constructor
  · rintro ⟨hid, hversion⟩
    rw [hid, hmax] at hversion
    exact ⟨hid, (Option.some.inj hversion).symm⟩
  · rintro ⟨hid, hversion⟩
    exact ⟨hid, by rw [hid, hmax, hversion]⟩

end DataTable
end CommonDataLayer.Postgres
