import CommonDataLayer.CommandService.MessageRouter
import CommonDataLayer.Postgres.DataTable

/-! # The PostgreSQL output plugin

`handleMessage` takes a connection from the pool, parses the document and inserts one row, with the
timestamp of the message as its version. `store` is its meaning on a data table that can be
reached.
-/
namespace CommonDataLayer.CommandService.PostgresOutputPlugin
open Interaction Postgres
set_option autoImplicit false

inductive Call where
  | getConnection
  | insert (row : Row)

abbrev Answer : Call → Type
  | .getConnection => Except String Unit
  | .insert _ => Except String Unit

def getConnection : Program Answer (Except String Unit) := Program.perform Call.getConnection
def insertRow (row : Row) : Program Answer (Except String Unit) :=
  Program.perform (Call.insert row)

/-- The values of the `INSERT`. -/
def toRow (msg : BorrowedInsertMessage) (payload : Value) : Row :=
  { objectId := msg.objectId, version := msg.timestamp, schemaId := msg.schemaId,
    payload := payload }

def handleMessage (json : SerdeJson) (msg : BorrowedInsertMessage) :
    Program Answer Resolution := do
  match ← getConnection with
  | .error _ => return .commandServiceFailure
  | .ok () =>
    match json.value msg.data.get with
    | .error _ => return .commandServiceFailure
    | .ok payload =>
      match ← insertRow (toRow msg payload) with
      | .ok () => return .success
      | .error err => return .storageLayerFailure err

/-- A pool that yields connections to the table. -/
def onTable : (q : Call) → DataTable → Answer q × DataTable
  | .getConnection, table => (.ok (), table)
  | .insert row, table => match table.insert row with
    | .ok table' => (.ok (), table')
    | .error err => (.error err, table)

def store (json : SerdeJson) (msg : BorrowedInsertMessage) (table : DataTable) :
    Resolution × DataTable :=
  (handleMessage json msg).run onTable table

/-- Handles messages one after the other. -/
def storeAll (json : SerdeJson) : List BorrowedInsertMessage → DataTable →
    List Resolution × DataTable
  | [], table => ([], table)
  | msg :: rest, table =>
    let (resolution, table) := store json msg table
    let (resolutions, table) := storeAll json rest table
    (resolution :: resolutions, table)

/-! ## What is stored -/

/-- The row of a message whose document parses. -/
def rowOf (json : SerdeJson) (msg : BorrowedInsertMessage) : Option Row :=
  (json.value msg.data.get).toOption.map (toRow msg)

def keyOf (msg : BorrowedInsertMessage) : Uuid × ℤ := (msg.objectId, msg.timestamp)

theorem key_of_rowOf {json : SerdeJson} {msg : BorrowedInsertMessage} {row : Row}
    (h : rowOf json msg = some row) : row.key = keyOf msg := by
  unfold rowOf at h
  cases hv : json.value msg.data.get with
  | error e => rw [hv] at h; cases h
  | ok v => rw [hv] at h; cases h; rfl

/-- A message whose key is free is not refused by the table. -/
theorem store_of_free (json : SerdeJson) {msg : BorrowedInsertMessage} {table : DataTable}
    (free : keyOf msg ∉ table.rows.map Row.key) :
    (∀ err, (store json msg table).1 ≠ .storageLayerFailure err) ∧
      (store json msg table).2.rows = table.rows ++ (rowOf json msg).toList := by
  unfold store handleMessage rowOf
  cases json.value msg.data.get with
  | error e => exact ⟨by simp [getConnection, Program.perform, onTable],
      by simp [getConnection, Program.perform, onTable, Except.toOption]⟩
  | ok payload =>
    obtain ⟨table', htable⟩ : ∃ table', table.insert (toRow msg payload) = .ok table' :=
      ⟨_, dif_neg free⟩
    have hrows := (DataTable.insert_eq_ok.mp htable).2
    simp [getConnection, insertRow, Program.perform, onTable, htable, hrows, Except.toOption]

/-- Messages with pairwise different, free keys are all stored. -/
theorem storeAll_of_free (json : SerdeJson) {msgs : List BorrowedInsertMessage}
    {table : DataTable} (nodup : (msgs.map keyOf).Nodup)
    (free : ∀ msg ∈ msgs, keyOf msg ∉ table.rows.map Row.key) :
    (∀ resolution ∈ (storeAll json msgs table).1, ∀ err,
      resolution ≠ .storageLayerFailure err) ∧
      (storeAll json msgs table).2.rows = table.rows ++ msgs.filterMap (rowOf json) := by
  induction msgs generalizing table with
  | nil => simp [storeAll]
  | cons msg rest ih =>
    rw [List.map_cons, List.nodup_cons] at nodup
    obtain ⟨hresolution, hrows⟩ := store_of_free json (free msg List.mem_cons_self)
    have hfree : ∀ other ∈ rest,
        keyOf other ∉ (store json msg table).2.rows.map Row.key := by
      intro other hother hmem
      rw [hrows, List.map_append, List.mem_append] at hmem
      rcases hmem with hmem | hmem
      · exact free other (List.mem_cons_of_mem _ hother) hmem
      · obtain ⟨row, hrow, hkey⟩ := List.mem_map.mp hmem
        rw [key_of_rowOf (Option.mem_toList.mp hrow)] at hkey
        exact nodup.1 (List.mem_map.mpr ⟨other, hother, hkey.symm⟩)
    obtain ⟨hrest, hrows'⟩ := ih nodup.2 hfree
    refine ⟨?_, ?_⟩
    · intro resolution hmem
      rcases List.mem_cons.mp hmem with rfl | hmem
      · exact hresolution
      · exact hrest resolution hmem
    · show (storeAll json rest (store json msg table).2).2.rows = _
      rw [hrows', hrows, List.append_assoc]
      cases h : rowOf json msg <;> simp [h]

end CommonDataLayer.CommandService.PostgresOutputPlugin
