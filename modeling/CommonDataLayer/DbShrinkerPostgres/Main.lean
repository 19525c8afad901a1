import CommonDataLayer.DbShrinkerPostgres.Merge
import CommonDataLayer.Foundations.Compaction
import CommonDataLayer.Foundations.Program
import CommonDataLayer.Postgres.History

/-! # The shrinker

`main` selects the objects with more than one row and merges the rows of each into the newest one.
A statement is a call; the two statements of the transaction are committed by one call.

`run_main`: alone on a table, it succeeds and folds the rows of every object. The order in which
PostgreSQL returns the objects does not matter.
-/
namespace CommonDataLayer.DbShrinkerPostgres
open Interaction Postgres Compaction
set_option autoImplicit false

inductive Statement where
  | delete (objectId : Uuid) (version : ℤ)
  | update (payload : Value) (objectId : Uuid) (version : ℤ)

inductive Call where
  | connect
  | setSearchPath (schema : String)
  | selectDuplicated
  | selectAll (objectId : Uuid)
  | commit (transaction : List Statement)

abbrev Answer : Call → Type
  | .connect => Except String Unit
  | .setSearchPath _ => Except String Unit
  | .selectDuplicated => Except String (List Uuid)
  | .selectAll _ => Except String (List (ℤ × Value))
  | .commit _ => Except String Unit

abbrev Task (α : Type) : Type := ExceptT AnyhowError (Program Answer) α

def tryCall {α : Type} (call : Program Answer (Except String α)) : Task α :=
  ExceptT.mk (call.bind fun r => .ret (r.mapError .root))

def context {α : Type} (text : String) (x : Task α) : Task α :=
  ExceptT.mk (x.run.bind fun r => .ret (withContext text r))

/-- `Option::context`. -/
def orError {α : Type} (text : String) (value : Option α) : Task α :=
  ExceptT.mk (.ret (value.elim (.error (.root text)) .ok))

def getAllWithId (objectId : Uuid) : Task (List (ℤ × Value)) :=
  tryCall (Program.perform (Call.selectAll objectId))

def minimizeDocument (rows : List (ℤ × Value)) : Option Value :=
  foldFirst merge (rows.map fun row => row.2)

def shrinkById (objectId : Uuid) : Task Unit := do
  let rows ← getAllWithId objectId
  let (version, _) ← orError "No rows with selected ID, did database change mid-shrink?" rows.getLast?
  let document ← orError "Failed minimizing document" (minimizeDocument rows)
  tryCall (Program.perform (Call.commit
    [.delete objectId version, .update document objectId version]))

def shrinkAll : List Uuid → Task Unit
  | [] => return ()
  | objectId :: changedIds => do
    context s!"Shrinking of {objectId.toText}" (shrinkById objectId)
    shrinkAll changedIds

def main (schema : String) : Task Unit := do
  context "Connection to PostgreSQL" (tryCall (Program.perform Call.connect))
  context "Unable to select schema!" (tryCall (Program.perform (Call.setSearchPath schema)))
  let changedIds ← context "Select duplicated object_ids"
    (tryCall (Program.perform Call.selectDuplicated))
  shrinkAll changedIds

/-! ## Alone on a table -/

def Statement.execute (table : DataTable) : Statement → DataTable
  | delete objectId version => table.delete objectId version
  | update payload objectId version => table.update payload objectId version

/-- PostgreSQL, which returns the objects in the order `order`. -/
def onTable (order : List Uuid → List Uuid) : (q : Call) → DataTable → Answer q × DataTable
  | .connect, table => (.ok (), table)
  | .setSearchPath _, table => (.ok (), table)
  | .selectDuplicated, table => (.ok (order table.selectDuplicated), table)
  | .selectAll objectId, table => (.ok (table.selectAll objectId), table)
  | .commit transaction, table => (.ok (), transaction.foldl Statement.execute table)

def run {α : Type} (order : List Uuid → List Uuid) (x : Task α) (table : DataTable) :
    Except AnyhowError α × DataTable :=
  Program.run (onTable order) x.run table

variable {α β : Type} {order : List Uuid → List Uuid} {table : DataTable} {id : Uuid}

theorem run_bind_ok {x : Task α} {table' : DataTable} {a : α} (h : run order x table = (.ok a, table'))
    (f : α → Task β) : run order (x >>= f) table = run order (f a) table' := by
  show Program.run (onTable order) (x >>= f).run table = _
  rw [Program.run_exceptT_bind]
  rw [run] at h
  rw [h]
  rfl

theorem run_context {text : String} {x : Task α} {a : α} {table' : DataTable}
    (h : run order x table = (.ok a, table')) : run order (context text x) table = (.ok a, table') := by
  show Program.run (onTable order) (x.run.bind fun r => .ret (withContext text r)) table = _
  rw [Program.run_bind]
  rw [run] at h
  rw [h]
  rfl

/-- The table after an object was shrunk. -/
def shrunk (table : DataTable) (id : Uuid) : DataTable :=
  match (table.selectAll id).getLast?, minimizeDocument (table.selectAll id) with
  | some last, some document => (table.delete id last.1).update document id last.1
  | _, _ => table

theorem minimizeDocument_eq_none {rows : List (ℤ × Value)} :
    minimizeDocument rows = none ↔ rows = [] := by
  cases rows <;> simp [minimizeDocument, foldFirst]

/-- The rows of an object that has some, and the document they are merged into. -/
theorem history_cases (table : DataTable) (id : Uuid) : table.history id = [] ∨
    ∃ older last document, table.history id = older ++ [last] ∧
      minimizeDocument (table.selectAll id) = some document := by
  rcases List.eq_nil_or_concat' (table.history id) with h | ⟨older, last, h⟩
  · exact Or.inl h
  · cases hdocument : minimizeDocument (table.selectAll id) with
    | none =>
      have hnil := minimizeDocument_eq_none.mp hdocument
      rw [DataTable.selectAll, h, List.map_eq_nil_iff] at hnil
      simp at hnil
    | some document => exact Or.inr ⟨older, last, document, h, rfl⟩

theorem selectAll_getLast? {older : List Row} {last : Row} (h : table.history id = older ++ [last]) :
    (table.selectAll id).getLast? = some (last.version, last.payload) := by
  rw [DataTable.selectAll, h, List.map_append, List.map_singleton, List.getLast?_concat]

theorem shrunk_eq {older : List Row} {last : Row} {document : Value}
    (h : table.history id = older ++ [last])
    (hdocument : minimizeDocument (table.selectAll id) = some document) :
    shrunk table id = (table.delete id last.version).update document id last.version := by
  rw [shrunk, selectAll_getLast? h, hdocument]

theorem history_shrunk {older : List Row} {last : Row} {document : Value}
    (h : table.history id = older ++ [last])
    (hdocument : minimizeDocument (table.selectAll id) = some document) :
    (shrunk table id).history id = [{ last with payload := document }] := by
  rw [shrunk_eq h hdocument]
  exact DataTable.history_transaction h

theorem history_shrunk_of_ne {other : Uuid} (hother : other ≠ id) :
    (shrunk table id).history other = table.history other := by
  rw [shrunk]
  split
  · exact DataTable.history_transaction_of_ne hother
  · rfl

/-- What becomes of an object depends on its own rows. -/
theorem history_shrunk_congr {table' : DataTable} (h : table.history id = table'.history id) :
    (shrunk table id).history id = (shrunk table' id).history id := by
  have hselect : table.selectAll id = table'.selectAll id := by
    rw [DataTable.selectAll, DataTable.selectAll, h]
  rcases history_cases table id with hnil | ⟨older, last, document, hlast, hdocument⟩
  · have hempty : table.selectAll id = [] := by rw [DataTable.selectAll, hnil]; rfl
    rw [shrunk, shrunk, ← hselect, hempty]
    exact h
  · rw [history_shrunk hlast hdocument, history_shrunk (h ▸ hlast) (hselect ▸ hdocument)]

theorem run_shrinkById (h : table.history id ≠ []) :
    run order (shrinkById id) table = (.ok (), shrunk table id) := by
  obtain ⟨older, last, document, hlast, hdocument⟩ := (history_cases table id).resolve_left h
  have hget : run order (getAllWithId id) table = (.ok (table.selectAll id), table) := rfl
  rw [shrinkById, run_bind_ok hget, selectAll_getLast? hlast, hdocument, shrunk_eq hlast hdocument]
  rfl

theorem run_shrinkAll {ids : List Uuid} (hnodup : ids.Nodup) (h : ∀ id ∈ ids, table.history id ≠ []) :
    run order (shrinkAll ids) table = (.ok (), ids.foldl shrunk table) := by
  induction ids generalizing table with
  | nil => rfl
  | cons id ids ih =>
    rw [List.nodup_cons] at hnodup
    rw [shrinkAll, run_bind_ok (run_context (run_shrinkById (h id List.mem_cons_self)))]
    refine ih hnodup.2 fun other hother => ?_
    have hne : other ≠ id := fun heq => hnodup.1 (heq ▸ hother)
    rw [history_shrunk_of_ne hne]
    exact h other (List.mem_cons_of_mem id hother)

/-- Each object is shrunk once, whatever the order is. -/
theorem history_foldl_shrunk {ids : List Uuid} (hnodup : ids.Nodup) :
    (ids.foldl shrunk table).history id =
      if id ∈ ids then (shrunk table id).history id else table.history id := by
  induction ids generalizing table with
  | nil => rfl
  | cons first ids ih =>
    rw [List.nodup_cons] at hnodup
    rw [List.foldl_cons, ih hnodup.2]
    by_cases hid : id = first
    · subst hid
      rw [if_neg hnodup.1, if_pos List.mem_cons_self]
    · rw [history_shrunk_of_ne hid]
      by_cases hmem : id ∈ ids
      · rw [if_pos hmem, if_pos (List.mem_cons_of_mem first hmem)]
        exact history_shrunk_congr (history_shrunk_of_ne hid)
      · rw [if_neg hmem, if_neg (by simp [hid, hmem])]

/-- Every object has one row, its newest one, with all its documents merged. -/
def Shrunk (table table' : DataTable) : Prop :=
  ∀ id, (table.history id = [] ∧ table'.history id = []) ∨
    ∃ older last document, table.history id = older ++ [last] ∧
      minimizeDocument (table.selectAll id) = some document ∧
      table'.history id = [{ last with payload := document }]

theorem run_main (horder : ∀ ids, (order ids).Perm ids) (schema : String) (table : DataTable) :
    ∃ table', run order (main schema) table = (.ok (), table') ∧ Shrunk table table' := by
  have hnodup : (order table.selectDuplicated).Nodup :=
    (horder _).nodup_iff.mpr table.selectDuplicated_nodup
  have hmem (id : Uuid) : id ∈ order table.selectDuplicated ↔ 1 < (table.history id).length := by
    rw [(horder _).mem_iff, DataTable.mem_selectDuplicated]
  refine ⟨(order table.selectDuplicated).foldl shrunk table, ?_, fun id => ?_⟩
  · refine run_shrinkAll hnodup fun id hid hnil => ?_
    have hnil : table.history id = [] := hnil
    have hlength := (hmem id).mp hid
    rw [hnil] at hlength
    exact absurd hlength (by simp)
  · rw [history_foldl_shrunk hnodup]
    rcases history_cases table id with hnil | ⟨older, last, document, hlast, hdocument⟩
    · have hnot : id ∉ order table.selectDuplicated := by rw [hmem, hnil]; simp
      rw [if_neg hnot]
      exact Or.inl ⟨hnil, hnil⟩
    · refine Or.inr ⟨older, last, document, hlast, hdocument, ?_⟩
      split
      · exact history_shrunk hlast hdocument
      · rename_i hnot
        rw [hmem, hlast, List.length_append] at hnot
        rw [List.length_singleton] at hnot
        have holder : older = [] := List.eq_nil_of_length_eq_zero (by omega)
        rw [DataTable.selectAll, hlast, holder] at hdocument
        cases hdocument
        rw [hlast, holder]
        rfl

end CommonDataLayer.DbShrinkerPostgres
