import CommonDataLayer.Postgres.DataTable
import Mathlib.Data.List.Dedup
import Mathlib.Data.List.Sort

/-! # The rows of one object

`history` is the rows of an object in ascending order of their versions, which the primary key makes
strict. It is what the statements of the shrinker read and change, and `history_eq` finds it from
the rows that are in the table.
-/
namespace CommonDataLayer.Postgres.DataTable
set_option autoImplicit false

/-- The rows of an object, `ORDER BY version ASC`. -/
def history (table : DataTable) (objectId : Uuid) : List Row :=
  (table.rows.filter fun row => row.objectId = objectId).mergeSort fun a b => a.version ≤ b.version

/-- `SELECT version, payload FROM data WHERE object_id = $1 ORDER BY version ASC`. -/
def selectAll (table : DataTable) (objectId : Uuid) : List (ℤ × Value) :=
  (table.history objectId).map fun row => (row.version, row.payload)

/-- `SELECT object_id FROM data GROUP BY object_id HAVING count(*) > 1`, in some order. -/
def selectDuplicated (table : DataTable) : List Uuid :=
  (table.rows.map Row.objectId).dedup.filter fun id =>
    1 < table.rows.countP fun row => row.objectId = id

/-- The rows that the `SELECT` of `query_by_schema` yields. -/
def selectBySchema (table : DataTable) (schemaId : Uuid) : List Row :=
  table.rows.filter fun row =>
    row.schemaId = schemaId ∧ table.maxVersion row.objectId = some row.version

/-- `DELETE FROM data WHERE object_id = $1 AND version < $2`. -/
def delete (table : DataTable) (objectId : Uuid) (version : ℤ) : DataTable :=
  { rows := table.rows.filter fun row => ¬ (row.objectId = objectId ∧ row.version < version)
    primaryKey := table.primaryKey.sublist (List.filter_sublist.map _) }

/-- `UPDATE data SET payload = $1 WHERE object_id = $2 AND version = $3`. -/
def update (table : DataTable) (payload : Value) (objectId : Uuid) (version : ℤ) : DataTable :=
  { rows := table.rows.map fun row =>
      if row.objectId = objectId ∧ row.version = version then { row with payload := payload } else row
    primaryKey := by
      have hkeys : (table.rows.map fun row => if row.objectId = objectId ∧ row.version = version then
          { row with payload := payload } else row).map Row.key = table.rows.map Row.key := by
        rw [List.map_map]
        refine List.map_congr_left fun row _ => ?_
        show Row.key (if _ then _ else _) = _
        split <;> rfl
      rw [hkeys]
      exact table.primaryKey }

/-! ## What a history is -/

variable {table table' : DataTable} {id : Uuid}

theorem mem_history {row : Row} : row ∈ table.history id ↔ row ∈ table.rows ∧ row.objectId = id := by
  rw [history, List.mem_mergeSort, List.mem_filter, decide_eq_true_eq]

theorem history_empty : empty.history id = [] := by
  simp [history, empty]

theorem history_nodup : (table.rows.filter fun row => row.objectId = id).Pairwise
    fun a b => a.version ≠ b.version := by
  have hkeys := (List.pairwise_map.mp table.primaryKey).filter fun row => row.objectId = id
  refine hkeys.imp_of_mem fun {a b} ha hb hne hversion => hne ?_
  have ha : a.objectId = id := by simpa using (List.mem_filter.mp ha).2
  have hb : b.objectId = id := by simpa using (List.mem_filter.mp hb).2
  rw [Row.key, Row.key, ha, hb, hversion]

theorem history_sorted (table : DataTable) (id : Uuid) :
    (table.history id).Pairwise fun a b => a.version < b.version := by
  have hle : (table.history id).Pairwise fun a b => decide (a.version ≤ b.version) := by
    refine List.pairwise_mergeSort (fun a b c hab hbc => ?_) (fun a b => ?_) _
    · exact decide_eq_true ((of_decide_eq_true hab).trans (of_decide_eq_true hbc))
    · simpa using le_total a.version b.version
  have hne : (table.history id).Pairwise fun a b => a.version ≠ b.version :=
    history_nodup.perm (List.mergeSort_perm _ _).symm fun h => h.symm
  exact (hle.and hne).imp fun h => lt_of_le_of_ne (of_decide_eq_true h.1) h.2

/-- Rows in strictly ascending order of their versions that are the rows of the object. -/
theorem history_eq {rows : List Row} (hsorted : rows.Pairwise fun a b => a.version < b.version)
    (hmem : ∀ row, row ∈ rows ↔ row ∈ table.rows ∧ row.objectId = id) : table.history id = rows := by
  have hnodup {rows : List Row} (h : rows.Pairwise fun a b => a.version < b.version) : rows.Nodup :=
    h.imp fun {a b} (hlt : a.version < b.version) heq => hlt.ne (congrArg Row.version heq)
  refine List.Perm.eq_of_pairwise (fun a b _ _ hab hba => absurd hab hba.not_gt)
    (table.history_sorted id) hsorted ?_
  refine (List.perm_ext_iff_of_nodup (hnodup (table.history_sorted id)) (hnodup hsorted)).mpr ?_
  intro row
  rw [mem_history, hmem]

theorem history_congr (h : ∀ row, row.objectId = id → (row ∈ table.rows ↔ row ∈ table'.rows)) :
    table.history id = table'.history id := by
  refine history_eq (table'.history_sorted id) fun row => ?_
  rw [mem_history]
  exact and_congr_left fun hid => (h row hid).symm

/-! ## What a statement makes of it -/

theorem history_insert {row : Row} (h : table.insert row = .ok table') :
    ∃ lower higher, table.history row.objectId = lower ++ higher ∧
      table'.history row.objectId = lower ++ row :: higher ∧
      (∀ other ∈ lower, other.version < row.version) ∧
      ∀ other ∈ higher, row.version < other.version := by
  obtain ⟨hfree, hrows⟩ := insert_eq_ok.mp h
  have hrow : row ∈ table'.history row.objectId := by
    rw [mem_history, hrows]
    simp
  obtain ⟨lower, higher, hsplit⟩ := List.append_of_mem hrow
  have hsorted := table'.history_sorted row.objectId
  rw [hsplit, List.pairwise_append, List.pairwise_cons] at hsorted
  obtain ⟨hlow, ⟨hhigher, hhigh⟩, hacross⟩ := hsorted
  have hlower : ∀ other ∈ lower, other.version < row.version := fun other hother =>
    hacross other hother row List.mem_cons_self
  refine ⟨lower, higher, history_eq ?_ fun other => ?_, hsplit, hlower, hhigher⟩
  · exact List.pairwise_append.mpr ⟨hlow, hhigh, fun a ha b hb => (hlower a ha).trans (hhigher b hb)⟩
  · have hmem : other ∈ table'.history row.objectId ↔ _ := mem_history
    rw [hsplit, hrows, List.mem_append, List.mem_cons, List.mem_append, List.mem_singleton] at hmem
    have hold : other ∈ table.rows → other ≠ row := by
      rintro hother rfl
      exact hfree (List.mem_map_of_mem hother)
    have hnew : other ∈ lower ∨ other ∈ higher → other ≠ row := by
      rintro (hother | hother) rfl
      · exact lt_irrefl _ (hlower other hother)
      · exact lt_irrefl _ (hhigher other hother)
    rw [List.mem_append]
    tauto

theorem mem_delete {row : Row} {version : ℤ} : row ∈ (table.delete id version).rows ↔
    row ∈ table.rows ∧ ¬ (row.objectId = id ∧ row.version < version) := by
  rw [delete, List.mem_filter, decide_eq_true_eq]

theorem mem_update_of_ne {row : Row} {payload : Value} {version : ℤ} (h : row.objectId ≠ id) :
    row ∈ (table.update payload id version).rows ↔ row ∈ table.rows := by
  rw [update, List.mem_map]
  constructor
  · rintro ⟨other, hother, rfl⟩
    by_cases hid : other.objectId = id ∧ other.version = version
    · rw [if_pos hid] at h
      exact absurd hid.1 h
    · rw [if_neg hid]
      exact hother
  · exact fun hrow => ⟨row, hrow, if_neg fun hid => h hid.1⟩

/-- The statements of a transaction leave other objects alone. -/
theorem history_transaction_of_ne {payload : Value} {other : Uuid} {version : ℤ} (h : other ≠ id) :
    ((table.delete id version).update payload id version).history other = table.history other := by
  refine history_congr fun row hrow => ?_
  rw [mem_update_of_ne (hrow ▸ h), mem_delete]
  exact and_iff_left fun hid => h (hrow ▸ hid.1)

/-- With the greatest version, only its row is left, with the new payload. -/
theorem history_transaction {older : List Row} {last : Row} {payload : Value}
    (h : table.history id = older ++ [last]) :
    ((table.delete id last.version).update payload id last.version).history id =
      [{ last with payload := payload }] := by
  have hlast : last ∈ table.rows ∧ last.objectId = id := mem_history.mp (by rw [h]; simp)
  have hsorted := table.history_sorted id
  rw [h, List.pairwise_append] at hsorted
  have honly : ∀ row ∈ table.rows, row.objectId = id → ¬ row.version < last.version → row = last := by
    intro row hrow hid hless
    have hmem : row ∈ older ++ [last] := h ▸ mem_history.mpr ⟨hrow, hid⟩
    rcases List.mem_append.mp hmem with holder | heq
    · exact absurd (hsorted.2.2 row holder last List.mem_cons_self) hless
    · exact List.mem_singleton.mp heq
  refine history_eq (List.pairwise_singleton _ _) fun row => ?_
  rw [List.mem_singleton, update, List.mem_map]
  constructor
  · rintro rfl
    refine ⟨⟨last, mem_delete.mpr ⟨hlast.1, fun hless => lt_irrefl _ hless.2⟩, ?_⟩, hlast.2⟩
    rw [if_pos ⟨hlast.2, rfl⟩]
  · rintro ⟨⟨other, hother, rfl⟩, hid⟩
    obtain ⟨hother, hkept⟩ := mem_delete.mp hother
    have hotherId : other.objectId = id := by
      split at hid
      · exact hid
      · exact hid
    have hsame := honly other hother hotherId fun hless => hkept ⟨hotherId, hless⟩
    rw [hsame, if_pos ⟨hlast.2, rfl⟩]

theorem mem_selectDuplicated : id ∈ table.selectDuplicated ↔ 1 < (table.history id).length := by
  have hcount : table.rows.countP (fun row => row.objectId = id) = (table.history id).length := by
    rw [history, List.length_mergeSort, List.countP_eq_length_filter]
  rw [selectDuplicated, List.mem_filter, hcount, decide_eq_true_eq, List.mem_dedup]
  refine and_iff_right_of_imp fun hlength => ?_
  obtain ⟨row, hrow⟩ := List.exists_mem_of_length_pos (by omega : 0 < (table.history id).length)
  obtain ⟨hmem, hid⟩ := mem_history.mp hrow
  exact List.mem_map.mpr ⟨row, hmem, hid⟩

theorem selectDuplicated_nodup (table : DataTable) : table.selectDuplicated.Nodup :=
  (List.nodup_dedup _).filter _

/-! ## The versions of an object -/

def versions (table : DataTable) (objectId : Uuid) : List ℤ :=
  (table.history objectId).map Row.version

theorem mem_versions {version : ℤ} : version ∈ table.versions id ↔
    ∃ row ∈ table.rows, row.objectId = id ∧ row.version = version := by
  rw [versions, List.mem_map]
  simp only [mem_history, and_assoc]

theorem mem_versions_insert {row : Row} {version : ℤ} (h : table.insert row = .ok table') :
    version ∈ table'.versions row.objectId ↔
      version = row.version ∨ version ∈ table.versions row.objectId := by
  rw [mem_versions, mem_versions, (insert_eq_ok.mp h).2]
  simp only [List.mem_append, List.mem_singleton]
  constructor
  · rintro ⟨other, hother | rfl, hid, hversion⟩
    · exact Or.inr ⟨other, hother, hid, hversion⟩
    · exact Or.inl hversion.symm
  · rintro (rfl | ⟨other, hother, hid, hversion⟩)
    · exact ⟨row, Or.inr rfl, rfl, rfl⟩
    · exact ⟨other, Or.inl hother, hid, hversion⟩

theorem version_free {row : Row} (h : table.insert row = .ok table') :
    row.version ∉ table.versions row.objectId := by
  rw [mem_versions]
  rintro ⟨other, hother, hid, hversion⟩
  refine (insert_eq_ok.mp h).1 (List.mem_map.mpr ⟨other, hother, ?_⟩)
  rw [Row.key, Row.key, hid, hversion]

/-- The transaction removes the versions below the given one. -/
theorem mem_versions_transaction {payload : Value} {version other : ℤ} :
    other ∈ ((table.delete id version).update payload id version).versions id ↔
      other ∈ table.versions id ∧ ¬ other < version := by
  have hkey (row : Row) : (if row.objectId = id ∧ row.version = version then
      { row with payload := payload } else row).objectId = row.objectId ∧
      (if row.objectId = id ∧ row.version = version then
      { row with payload := payload } else row).version = row.version := by
    split <;> exact ⟨rfl, rfl⟩
  rw [mem_versions, mem_versions]
  constructor
  · rintro ⟨_, hmem, hid, hversion⟩
    obtain ⟨row, hrow, rfl⟩ := List.mem_map.mp hmem
    rw [(hkey row).1] at hid
    rw [(hkey row).2] at hversion
    obtain ⟨hrow, hkept⟩ := mem_delete.mp hrow
    exact ⟨⟨row, hrow, hid, hversion⟩, fun hless => hkept ⟨hid, hversion ▸ hless⟩⟩
  · rintro ⟨⟨row, hrow, hid, hversion⟩, hless⟩
    have hkept : row ∈ (table.delete id version).rows :=
      mem_delete.mpr ⟨hrow, fun h => hless (hversion ▸ h.2)⟩
    exact ⟨_, List.mem_map_of_mem hkept, (hkey row).1.trans hid, (hkey row).2.trans hversion⟩

/-! ## The newest row of an object -/

def newest (table : DataTable) (objectId : Uuid) : Option Row := (table.history objectId).getLast?

theorem newest_eq_some {row : Row} : table.newest id = some row ↔
    (row ∈ table.rows ∧ row.objectId = id) ∧ table.maxVersion id = some row.version := by
  have hmax (version : ℤ) : table.maxVersion id = some version ↔
      version ∈ table.versions id ∧ ∀ other ∈ table.versions id, other ≤ version := by
    refine List.max?_eq_some_iff.trans (and_congr ?_ (forall_congr' fun other => ?_))
    all_goals
      rw [versions, List.mem_map, List.mem_map]
      simp only [mem_history, List.mem_filter, decide_eq_true_eq]
  rw [hmax, ← mem_history]
  constructor
  · intro h
    obtain ⟨older, hsplit⟩ := List.getLast?_eq_some_iff.mp h
    have hrow : row ∈ table.history id := by simp [hsplit]
    refine ⟨hrow, List.mem_map_of_mem hrow, List.forall_mem_map.mpr fun other hother => ?_⟩
    have hsorted := table.history_sorted id
    rw [hsplit, List.pairwise_append] at hsorted
    rw [hsplit] at hother
    rcases List.mem_append.mp hother with hother | hother
    · exact (hsorted.2.2 other hother row (List.mem_singleton_self _)).le
    · rw [List.mem_singleton.mp hother]
  · rintro ⟨hrow, -, hgreatest⟩
    obtain ⟨lower, higher, hsplit⟩ := List.append_of_mem hrow
    have hsorted := table.history_sorted id
    rw [hsplit, List.pairwise_append, List.pairwise_cons] at hsorted
    have hhigher : higher = [] := by
      refine List.eq_nil_iff_forall_not_mem.mpr fun other hother => ?_
      have hle := hgreatest other.version (List.mem_map_of_mem (by simp [hsplit, hother]))
      exact absurd (hsorted.2.1.1 other hother) hle.not_gt
    rw [newest, hsplit, hhigher, List.getLast?_concat]

theorem mem_selectMultiple {ids : List Uuid} {row : Row} : row ∈ table.selectMultiple ids ↔
    table.newest row.objectId = some row ∧ row.objectId ∈ ids := by
  rw [newest_eq_some, selectMultiple, List.mem_filter, decide_eq_true_eq]
  tauto

theorem mem_selectBySchema {schemaId : Uuid} {row : Row} : row ∈ table.selectBySchema schemaId ↔
    table.newest row.objectId = some row ∧ row.schemaId = schemaId := by
  rw [newest_eq_some, selectBySchema, List.mem_filter, decide_eq_true_eq]
  tauto

end CommonDataLayer.Postgres.DataTable
