import CommonDataLayer.DbShrinkerPostgres.Main
import CommonDataLayer.Foundations.Runs

/-! # Shrinking while rows arrive

The rows of an object are inserted in any order, with runs of the shrinker in between and one after
the last of them. `shrinking_iff`: the object ends with the fold of all its payloads in the order of
their versions, exactly if no row arrives late, which is after a run that has merged a row with a
greater version.
-/
namespace CommonDataLayer.DbShrinkerPostgres
open Postgres Compaction TransitionSystem
set_option autoImplicit false

/-- An insert of a row of the object, or a complete run of the shrinker. -/
inductive Happens (id : Uuid) (schemaIds : ℤ → Uuid) (payload : ℤ → Value) :
    DataTable → Event ℤ → DataTable → Prop where
  | insert {table table' : DataTable} {version : ℤ}
      (h : table.insert ⟨id, version, schemaIds version, payload version⟩ = .ok table') :
      Happens id schemaIds payload table (.insert version) table'
  | shrink {table table' : DataTable} {order : List Uuid → List Uuid} {schema : String}
      (horder : ∀ ids, (order ids).Perm ids)
      (h : run order (main schema) table = (.ok (), table')) :
      Happens id schemaIds payload table .compact table'

/-- The object has one row, with the greatest version and the fold of all payloads in ascending
order of their versions. -/
def EndsMerged (table : DataTable) (id : Uuid) (versions : List ℤ) (payload : ℤ → Value) : Prop :=
  ∃ row, table.history id = [row] ∧ row.version ∈ versions ∧
    (∀ version ∈ versions, version ≤ row.version) ∧
    foldFirst merge ((versions.mergeSort (· ≤ ·)).map payload) = some row.payload

/-! ## One event -/

section Events
variable {id : Uuid} {schemaIds : ℤ → Uuid} {payload : ℤ → Value} {table table' : DataTable}
  {schedule : List (Event ℤ)} {event : Event ℤ}

theorem Shrunk.selectAll (h : Shrunk table table') (id : Uuid) :
    table'.selectAll id = compact merge (table.selectAll id) := by
  rcases h id with ⟨hnil, hnil'⟩ | ⟨older, last, document, hlast, hdocument, hone⟩
  · rw [DataTable.selectAll, DataTable.selectAll, hnil, hnil']
    rfl
  · obtain ⟨value, hvalue, hcompact⟩ : ∃ value, foldFirst merge _ = some value ∧ _ :=
      compact_append_singleton (older.map fun row => (row.version, row.payload))
        (last.version, last.payload)
    have hselect : table.selectAll id = older.map (fun row => (row.version, row.payload)) ++
        [(last.version, last.payload)] := by
      rw [DataTable.selectAll, hlast, List.map_append]
      rfl
    rw [minimizeDocument, hselect, hvalue, Option.some.injEq] at hdocument
    rw [hselect, hcompact, DataTable.selectAll, hone, hdocument]
    rfl

theorem Happens.selectAll (h : Happens id schemaIds payload table event table') :
    table'.selectAll id = step merge payload (table.selectAll id) event := by
  cases h with
  | insert h =>
    obtain ⟨lower, higher, hbefore, hafter, hlower, hhigher⟩ := DataTable.history_insert h
    dsimp only at hbefore hafter hlower hhigher
    rw [DataTable.selectAll, DataTable.selectAll, hbefore, hafter, List.map_append, List.map_append,
      step, insertRow_append]
    · rfl
    · exact List.forall_mem_map.mpr hlower
    · exact List.forall_mem_map.mpr hhigher
  | shrink horder h =>
    obtain ⟨table'', hrun, hshrunk⟩ := run_main horder _ table
    rw [hrun] at h
    cases h
    exact hshrunk.selectAll id

/-- The rows of the object are what the schedule leaves. -/
theorem selectAll_of_run {ts : List (Transition DataTable (Event ℤ))}
    (hempty : table.history id = []) (hrun : Run (Happens id schemaIds payload) table ts table') :
    table'.selectAll id = play merge payload (ts.map (·.label)) := by
  have hselect : table.selectAll id = [] := by rw [DataTable.selectAll, hempty]; rfl
  rw [play, ← hselect]
  have hstep (before : DataTable) (event : Event ℤ) (after : DataTable)
      (h : Happens id schemaIds payload before event after) :
      after.selectAll id = step merge payload (before.selectAll id) event := h.selectAll
  exact hrun.observe hstep

theorem exists_run (schemaIds : ℤ → Uuid) (payload : ℤ → Value) (hempty : table.history id = [])
    (hdistinct : (keys schedule).Nodup) :
    ∃ ts table', Run (Happens id schemaIds payload) table ts table' ∧
      ts.map (·.label) = schedule := by
  induction schedule using List.reverseRecOn with
  | nil => exact ⟨[], table, .start, rfl⟩
  | append_singleton schedule event ih =>
    rw [keys_append, List.nodup_append] at hdistinct
    obtain ⟨ts, before, hrun, rfl⟩ := ih hdistinct.1
    obtain ⟨after, hnext⟩ : ∃ after, Happens id schemaIds payload before event after := by
      cases event with
      | insert version =>
        have hfree : (⟨id, version, schemaIds version, payload version⟩ : Row).key ∉
            before.rows.map Row.key := by
          intro hmem
          obtain ⟨row, hrow, hkey⟩ := List.mem_map.mp hmem
          obtain ⟨hid, hversion⟩ := Prod.mk.inj hkey
          have hselect : (row.version, row.payload) ∈ before.selectAll id :=
            List.mem_map_of_mem (DataTable.mem_history.mpr ⟨hrow, hid⟩)
          rw [selectAll_of_run hempty hrun] at hselect
          have hkeys : row.version ∈ keys (ts.map (·.label)) := keys_foldl hselect
          exact hdistinct.2.2 _ hkeys _ List.mem_cons_self hversion
        exact ⟨_, .insert (dif_neg hfree)⟩
      | compact =>
        obtain ⟨after, hmain, -⟩ : ∃ after, run (fun ids => ids) (main "cdl") before = (.ok (), after) ∧
          Shrunk before after := run_main (fun ids => .refl ids) "cdl" before
        exact ⟨after, .shrink (fun ids => .refl ids) hmain⟩
    exact ⟨_, after, .step hrun hnext, by rw [List.map_append]; rfl⟩

theorem sorts_mergeSort (hdistinct : (keys schedule).Nodup) :
    Sorts ((keys schedule).mergeSort (· ≤ ·)) schedule := by
  have hperm := List.mergeSort_perm (keys schedule) (· ≤ ·)
  have hle : ((keys schedule).mergeSort (· ≤ ·)).Pairwise (· ≤ ·) := List.pairwise_mergeSort' _ _
  exact ⟨hperm, (hle.and (hperm.nodup_iff.mpr hdistinct)).imp fun h => lt_of_le_of_ne h.1 h.2⟩

/-- The end of a schedule, as it is read from the table. -/
theorem endsMerged_iff {sorted : List ℤ} (hsorts : Sorts sorted schedule) (hne : keys schedule ≠ []) :
    EndsMerged table id (keys schedule) payload ↔
      table.selectAll id = compact merge (rowsOf payload sorted) := by
  have hmergeSort : (keys schedule).mergeSort (· ≤ ·) = sorted := by
    have hle : ((keys schedule).mergeSort (· ≤ ·)).Pairwise (· ≤ ·) := List.pairwise_mergeSort' _ _
    exact ((List.mergeSort_perm _ _).trans hsorts.perm.symm).eq_of_pairwise
      (fun a b _ _ hab hba => le_antisymm hab hba) hle (hsorts.ascending.imp le_of_lt)
  have hmem (version : ℤ) : version ∈ keys schedule ↔ version ∈ sorted := hsorts.perm.mem_iff.symm
  have hascending := hsorts.ascending
  simp only [EndsMerged, hmergeSort, hmem]
  clear hmergeSort
  rcases List.eq_nil_or_concat' sorted with rfl | ⟨front, greatest, rfl⟩
  · exact absurd hsorts.perm.symm.eq_nil hne
  obtain ⟨value, hvalue, hcompact⟩ : ∃ value, foldFirst merge _ = some value ∧
      compact merge (rowsOf payload front ++ [(greatest, payload greatest)]) = [(greatest, value)] :=
    compact_append_singleton _ _
  have hrows : rowsOf payload (front ++ [greatest]) =
      rowsOf payload front ++ [(greatest, payload greatest)] := rowsOf_append _ _
  have hpayloads : (front ++ [greatest]).map payload =
      (rowsOf payload (front ++ [greatest])).map (·.2) := by
    rw [rowsOf, List.map_map]
    rfl
  have hle : ∀ version ∈ front ++ [greatest], version ≤ greatest := by
    rw [List.pairwise_append] at hascending
    intro version hversion
    rcases List.mem_append.mp hversion with hfront | hlast
    · exact (hascending.2.2 version hfront greatest List.mem_cons_self).le
    · exact (List.mem_singleton.mp hlast).le
  rw [hpayloads, hrows, hcompact, hvalue, DataTable.selectAll]
  constructor
  · rintro ⟨row, hrow, hversion, hgreatest, hpayload⟩
    have hsame : row.version = greatest :=
      le_antisymm (hle _ hversion) (hgreatest greatest (by simp))
    rw [hrow, List.map_singleton, hsame, Option.some.inj hpayload]
  · intro hselect
    obtain ⟨row, hrow, heq⟩ := List.map_eq_singleton_iff.mp hselect
    obtain ⟨rfl, rfl⟩ := Prod.mk.inj heq
    exact ⟨row, hrow, by simp, hle, rfl⟩

end Events
/-! ## Documents that show the order -/

/-- An object with one member. -/
def singleton (name : String) (value : Value) : Value := .object [(name, value)]

def one : Value := .number (.posInt 1)
def emptyObject : Value := .object []
def nested : Value := singleton "x" (singleton "y" one)
def plain : Value := singleton "x" one
def otherNested : Value := singleton "x" (singleton "z" one)
def bothNested : Value := singleton "x" (.object [("y", one), ("z", one)])

/-- Documents among which merging stays. -/
inductive Sample : Value → Prop where
  | emptyObject : Sample emptyObject
  | nested : Sample nested
  | plain : Sample plain
  | otherNested : Sample otherNested
  | bothNested : Sample bothNested

theorem neutralOn_sample : NeutralOn merge emptyObject Sample where
  ok := .emptyObject
  closed x y hx hy := by
    cases hx <;> cases hy
    all_goals first
      | exact .emptyObject
      | exact .nested
      | exact .plain
      | exact .otherNested
      | exact .bothNested
  left x hx := by cases hx <;> rfl
  right x hx := by cases hx <;> rfl

theorem showsOrder_sample : ShowsOrder merge emptyObject Sample nested plain otherNested where
  ok := ⟨.nested, .plain, .otherNested⟩
  values := by simp [emptyObject, nested, plain, otherNested, singleton]
  merged := by
    refine ⟨?_, ?_⟩
    · show bothNested ≠ emptyObject
      simp [bothNested, emptyObject, singleton]
    · show otherNested ≠ emptyObject
      simp [otherNested, emptyObject, singleton]
  commuted := by
    show bothNested ≠ otherNested
    simp [bothNested, otherNested, singleton]
  associated := by
    show bothNested ≠ otherNested
    simp [bothNested, otherNested, singleton]

theorem Document.singleton {value : Value} (h : Document value) (name : String) :
    Document (singleton name value) :=
  .object (by simp) (by simpa using h)

theorem document_threeValues (a b M version : ℤ) :
    Document (threeValues a b M nested plain otherNested emptyObject version) := by
  have hone : Document one := .number _
  unfold threeValues
  split
  · exact (hone.singleton "y").singleton "x"
  split
  · exact hone.singleton "x"
  split
  · exact (hone.singleton "z").singleton "x"
  · exact .object .nil (List.forall_mem_nil _)

/-! ## All schedules -/

/-- The object ends with all its payloads merged in the order of their versions, exactly if no row
arrives late. -/
theorem shrinking_iff {table : DataTable} {id : Uuid} {schedule : List (Event ℤ)}
    (hempty : table.history id = []) (hinserts : keys schedule ≠ [])
    (hdistinct : (keys schedule).Nodup) :
    (∀ schemaIds payload, (∀ version, Document (payload version)) → ∀ ts table',
        Run (Happens id schemaIds payload) table ts table' →
        ts.map (·.label) = schedule ++ [.compact] →
        EndsMerged table' id (keys schedule) payload) ↔
      ¬ Late schedule := by
  have hsorts := sorts_mergeSort hdistinct
  have hkeys : keys (schedule ++ [.compact]) = keys schedule := by
    rw [keys_append]
    exact List.append_nil _
  constructor
  · intro hmerged hlate
    obtain ⟨a, b, M, hne⟩ := exists_play_ne neutralOn_sample showsOrder_sample hsorts hlate
    obtain ⟨ts, table', hrun, hlabels⟩ := exists_run (fun _ => id)
      (threeValues a b M nested plain otherNested emptyObject) hempty (hkeys ▸ hdistinct)
    have hends := hmerged _ _ (document_threeValues a b M) ts table' hrun hlabels
    rw [endsMerged_iff hsorts hinserts, selectAll_of_run hempty hrun, hlabels] at hends
    exact hne hends
  · intro hlate schemaIds payload _ ts table' hrun hlabels
    rw [endsMerged_iff hsorts hinserts, selectAll_of_run hempty hrun, hlabels]
    exact play_of_not_late hsorts hlate

theorem shrinking_iff_sample :
    (∀ schemaIds payload, (∀ version, Document (payload version)) → ∀ ts table',
        Run (Happens 0 schemaIds payload) DataTable.empty ts table' →
        ts.map (·.label) = [.insert 1, .compact, .insert 2] ++ [.compact] →
        EndsMerged table' 0 (keys [.insert 1, .compact, .insert 2]) payload) ↔
      ¬ Late [.insert (1 : ℤ), .compact, .insert 2] :=
  shrinking_iff DataTable.history_empty (by decide) (by decide)

/-- The row with the version 2 arrives after the rows 1 and 3 were merged. -/
def lateSchedule : List (Event ℤ) := [.insert 1, .insert 3, .compact, .insert 2]

def lateDocument (version : ℤ) : Value :=
  if version = 1 then singleton "a" (.bool false)
  else if version = 2 then singleton "a" (.bool true) else emptyObject

/-- The document of the version 1 is merged over that of the version 2. -/
theorem not_endsMerged_late : ∃ ts table',
    Run (Happens 0 (fun _ => 0) lateDocument) DataTable.empty ts table' ∧
      ts.map (·.label) = lateSchedule ++ [.compact] ∧
      table'.selectAll 0 = [(3, singleton "a" (.bool false))] ∧
      ¬ EndsMerged table' 0 (keys lateSchedule) lateDocument := by
  have hempty : DataTable.empty.history 0 = [] := DataTable.history_empty
  obtain ⟨ts, table', hrun, hlabels⟩ := exists_run (fun _ => 0) lateDocument hempty
    (show (keys (lateSchedule ++ [.compact])).Nodup by decide)
  have hselect : table'.selectAll 0 = [(3, singleton "a" (.bool false))] := by
    rw [selectAll_of_run hempty hrun, hlabels]
    rfl
  refine ⟨ts, table', hrun, hlabels, hselect, ?_⟩
  have hsorts : Sorts [1, 2, 3] lateSchedule := ⟨by decide, by decide⟩
  rw [endsMerged_iff hsorts (by decide), hselect]
  show [_] ≠ [((3 : ℤ), singleton "a" (.bool true))]
  simp [singleton]

end CommonDataLayer.DbShrinkerPostgres
