import CommonDataLayer.DbShrinkerPostgres.Main
import CommonDataLayer.Foundations.Runs
import Mathlib.Logic.Function.Basic

/-! # Inserting while the shrinker works

The calls of `shrinkById` interleave with inserts of rows of its object. Next to the table, a state
says which of the inserted payloads each row holds: its own one, or those that were merged into it.

`nothing_lost_iff`: no payload is lost in a run exactly if every transaction that is committed
deletes below a version that no row inserted since its `SELECT` is below.
-/
namespace CommonDataLayer.DbShrinkerPostgres
open Interaction Postgres TransitionSystem
set_option autoImplicit false

/-- The payload of the row that had a version, and the number of inserts until then. -/
abbrev Inserted : Type := ℤ × ℕ

structure State where
  table : DataTable
  task : Program Answer (Except AnyhowError Unit)
  inserts : ℕ
  inserted : List Inserted
  /-- What the row with a version holds. -/
  holds : ℤ → List Inserted
  /-- What the rows that were selected held. -/
  selected : List Inserted
  /-- The versions inserted since the rows were selected. -/
  since : List ℤ

/-- Every payload is there as its own row, or was merged into a row that is there. -/
def NothingLost (id : Uuid) (s : State) : Prop :=
  ∀ payload ∈ s.inserted, ∃ version ∈ s.table.versions id, payload ∈ s.holds version

def initially (table : DataTable) (id : Uuid) : State where
  table := table
  task := (shrinkById id).run
  inserts := 0
  inserted := (table.versions id).map fun version => (version, 0)
  holds version := [(version, 0)]
  selected := []
  since := []

def Statement.moves (selected : List Inserted) (holds : ℤ → List Inserted) :
    Statement → ℤ → List Inserted
  | delete _ _ => holds
  | update _ _ version => Function.update holds version selected

def State.insert (s : State) (table : DataTable) (version : ℤ) : State :=
  { s with
    table := table
    inserts := s.inserts + 1
    inserted := (version, s.inserts + 1) :: s.inserted
    holds := Function.update s.holds version [(version, s.inserts + 1)]
    since := version :: s.since }

/-- What the rows hold after a call. -/
def State.holdsAfter (s : State) : Call → ℤ → List Inserted
  | .commit transaction => transaction.foldl (Statement.moves s.selected) s.holds
  | _ => s.holds

def State.selectedAfter (s : State) : Call → List Inserted
  | .selectAll id => (s.table.versions id).flatMap s.holds
  | _ => s.selected

def State.sinceAfter (s : State) : Call → List ℤ
  | .selectAll _ => []
  | _ => s.since

/-- The next call of the shrinker and its answer. -/
def State.answer (s : State) (q : Call) (next : Answer q → Program Answer (Except AnyhowError Unit)) :
    State :=
  let result := onTable (fun ids => ids) q s.table
  { s with
    table := result.2
    task := next result.1
    holds := s.holdsAfter q
    selected := s.selectedAfter q
    since := s.sinceAfter q }

/-- The call has failed. -/
def failed (text : String) : (q : Call) → Answer q
  | .connect => .error text
  | .setSearchPath _ => .error text
  | .selectDuplicated => .error text
  | .selectAll _ => .error text
  | .commit _ => .error text

inductive Action where
  | insert (version : ℤ)
  | answer
  | fail
  | restart

/-- A call takes effect and is answered, or only takes effect, or does nothing; a shrinker that has
returned is run again. -/
inductive Step (id : Uuid) : State → Action → State → Prop where
  | insert {s : State} {row : Row} {table : DataTable} (hid : row.objectId = id)
      (h : s.table.insert row = .ok table) :
      Step id s (.insert row.version) (s.insert table row.version)
  | answer {s : State} {q : Call} {next : Answer q → Program Answer (Except AnyhowError Unit)}
      (h : s.task = .call q next) : Step id s .answer (s.answer q next)
  | lose {s : State} {q : Call} {next : Answer q → Program Answer (Except AnyhowError Unit)}
      {text : String} (h : s.task = .call q next) :
      Step id s .answer (s.answer q fun _ => next (failed text q))
  | fail {s : State} {q : Call} {next : Answer q → Program Answer (Except AnyhowError Unit)}
      {text : String} (h : s.task = .call q next) :
      Step id s .fail { s with task := next (failed text q) }
  | restart {s : State} {result : Except AnyhowError Unit} (h : s.task = .ret result) :
      Step id s .restart { s with task := (shrinkById id).run }

/-- The next call is a transaction that deletes the rows below a version. -/
def DeletesBelow (id : Uuid) (version : ℤ) : Program Answer (Except AnyhowError Unit) → Prop
  | .call (.commit transaction) _ => .delete id version ∈ transaction
  | _ => False

/-- A transaction does not delete a row that was inserted since the `SELECT`. -/
def Undisturbed (id : Uuid) (s : State) : Action → Prop
  | .answer => ∀ version, DeletesBelow id version s.task → ∀ other ∈ s.since, ¬ other < version
  | _ => True

/-! ## What the shrinker is about to do -/

variable {id : Uuid} {s s' : State}

/-- What is left after the rows were selected. -/
def afterSelect (id : Uuid) : Answer (.selectAll id) → Program Answer (Except AnyhowError Unit)
  | .error text => .ret (.error (.root text))
  | .ok rows => ExceptT.run (do
      let (version, _) ←
        orError "No rows with selected ID, did database change mid-shrink?" rows.getLast?
      let document ← orError "Failed minimizing document" (minimizeDocument rows)
      tryCall (Program.perform (Call.commit
        [.delete id version, .update document id version])) : Task Unit)

/-- What is left before the transaction. -/
def beforeCommit (id : Uuid) (version : ℤ) (document : Value) :
    Program Answer (Except AnyhowError Unit) :=
  .call (.commit [.delete id version, .update document id version])
    fun answer => .ret (answer.mapError .root)

theorem run_shrinkById_eq : (shrinkById id).run = .call (.selectAll id) (afterSelect id) := by
  refine congrArg (Program.call _) (funext fun answer => ?_)
  cases answer <;> rfl

theorem afterSelect_eq {rows : List (ℤ × Value)} {last : ℤ × Value}
    (hlast : rows.getLast? = some last) :
    ∃ document, afterSelect id (.ok rows) = beforeCommit id last.1 document := by
  cases hdocument : minimizeDocument rows with
  | none =>
    rw [minimizeDocument_eq_none.mp hdocument] at hlast
    cases hlast
  | some document =>
    refine ⟨document, ?_⟩
    rw [afterSelect, hlast, hdocument]
    rfl

/-- The rows that were selected are still there, with what they held. -/
structure Waiting (id : Uuid) (s : State) (newest : ℤ) : Prop where
  read : newest ∈ s.table.versions id ∧ newest ∉ s.since
  greatest : ∀ version ∈ s.table.versions id, version ∉ s.since → version ≤ newest
  inserted : ∀ version ∈ s.since, version ∈ s.table.versions id
  selected (payload : Inserted) : payload ∈ s.selected ↔
    ∃ version ∈ s.table.versions id, version ∉ s.since ∧ payload ∈ s.holds version

inductive Position (id : Uuid) (s : State) : Prop where
  | start (h : s.task = (shrinkById id).run)
  | waiting {newest : ℤ} {document : Value} (h : s.task = beforeCommit id newest document)
      (hwaiting : Waiting id s newest)
  | done {result : Except AnyhowError Unit} (h : s.task = .ret result)

/-- No payload is lost, and no two rows hold the same one. -/
structure Held (id : Uuid) (s : State) : Prop where
  nothingLost : NothingLost id s
  counted : ∀ payload ∈ s.inserted, payload.2 ≤ s.inserts
  holds : ∀ version ∈ s.table.versions id,
    s.holds version ≠ [] ∧ ∀ payload ∈ s.holds version, payload ∈ s.inserted
  distinct : ∀ version ∈ s.table.versions id, ∀ other ∈ s.table.versions id,
    ∀ payload ∈ s.holds version, payload ∈ s.holds other → version = other

structure Kept (id : Uuid) (s : State) : Prop extends Held id s where
  position : Position id s

theorem kept_initially (table : DataTable) (id : Uuid) : Kept id (initially table id) where
  nothingLost payload hpayload := by
    obtain ⟨version, hversion, rfl⟩ := List.mem_map.mp hpayload
    exact ⟨version, hversion, List.mem_singleton_self _⟩
  counted payload hpayload := by
    obtain ⟨version, _, rfl⟩ := List.mem_map.mp hpayload
    exact le_rfl
  holds version hversion := by
    refine ⟨List.cons_ne_nil _ _, fun payload hpayload => ?_⟩
    rw [List.mem_singleton.mp hpayload]
    exact List.mem_map_of_mem hversion
  distinct version _ other _ payload hpayload hother := by
    rw [List.mem_singleton.mp hpayload] at hother
    exact congrArg Prod.fst (List.mem_singleton.mp hother)
  position := .start rfl

/-- A step that only moves the task on. -/
theorem Held.withTask (h : Held id s) (task : Program Answer (Except AnyhowError Unit)) :
    Held id { s with task := task } := ⟨h.nothingLost, h.counted, h.holds, h.distinct⟩

/-! ## Inserts -/

section Insert
variable {row : Row} {table : DataTable}

theorem holds_insert_of_mem (hid : row.objectId = id) (h : s.table.insert row = .ok table)
    {version : ℤ} (hversion : version ∈ s.table.versions id) :
    (s.insert table row.version).holds version = s.holds version := by
  refine Function.update_of_ne (fun heq => ?_) _ _
  exact DataTable.version_free h (hid ▸ heq ▸ hversion)

theorem holds_insert_self : (s.insert table row.version).holds row.version =
    [(row.version, s.inserts + 1)] := Function.update_self ..

theorem mem_versions_insert (hid : row.objectId = id) (h : s.table.insert row = .ok table)
    {version : ℤ} : version ∈ (s.insert table row.version).table.versions id ↔
      version = row.version ∨ version ∈ s.table.versions id :=
  hid ▸ DataTable.mem_versions_insert h

theorem Held.insert (hkept : Held id s) (hid : row.objectId = id)
    (h : s.table.insert row = .ok table) : Held id (s.insert table row.version) := by
  have hold {version : ℤ} (hversion : version ∈ s.table.versions id) :=
    holds_insert_of_mem hid h hversion
  have hnew : ∀ version ∈ s.table.versions id,
      (row.version, s.inserts + 1) ∉ s.holds version := by
    intro version hversion hmem
    have hcount := hkept.counted _ ((hkept.holds version hversion).2 _ hmem)
    dsimp only at hcount
    omega
  constructor
  · intro payload hpayload
    rcases List.mem_cons.mp hpayload with rfl | hpayload
    · refine ⟨row.version, (mem_versions_insert hid h).mpr (Or.inl rfl), ?_⟩
      rw [holds_insert_self]
      exact List.mem_singleton_self _
    · obtain ⟨version, hversion, hmem⟩ := hkept.nothingLost payload hpayload
      exact ⟨version, (mem_versions_insert hid h).mpr (Or.inr hversion), hold hversion ▸ hmem⟩
  · intro payload hpayload
    rcases List.mem_cons.mp hpayload with rfl | hpayload
    · exact le_rfl
    · exact (hkept.counted payload hpayload).trans (Nat.le_succ _)
  · intro version hversion
    rcases (mem_versions_insert hid h).mp hversion with rfl | hversion
    · rw [holds_insert_self]
      refine ⟨List.cons_ne_nil _ _, fun payload hpayload => ?_⟩
      rw [List.mem_singleton.mp hpayload]
      exact List.mem_cons_self
    · rw [hold hversion]
      obtain ⟨hne, hmem⟩ := hkept.holds version hversion
      exact ⟨hne, fun payload hpayload => List.mem_cons_of_mem _ (hmem payload hpayload)⟩
  · intro version hversion other hother payload hpayload hboth
    rcases (mem_versions_insert hid h).mp hversion with rfl | hversion <;>
      rcases (mem_versions_insert hid h).mp hother with rfl | hother
    · rfl
    · rw [holds_insert_self, List.mem_singleton] at hpayload
      rw [hold hother, hpayload] at hboth
      exact absurd hboth (hnew other hother)
    · rw [holds_insert_self, List.mem_singleton] at hboth
      rw [hold hversion, hboth] at hpayload
      exact absurd hpayload (hnew version hversion)
    · rw [hold hversion] at hpayload
      rw [hold hother] at hboth
      exact hkept.distinct version hversion other hother payload hpayload hboth

theorem Waiting.insert {newest : ℤ} (hwaiting : Waiting id s newest) (hid : row.objectId = id)
    (h : s.table.insert row = .ok table) : Waiting id (s.insert table row.version) newest := by
  have hfree : row.version ∉ s.table.versions id := hid ▸ DataTable.version_free h
  have hsince {version : ℤ} (hversion : version ∈ s.table.versions id) :
      version ∈ row.version :: s.since ↔ version ∈ s.since := by
    refine List.mem_cons.trans (or_iff_right ?_)
    rintro rfl
    exact hfree hversion
  constructor
  · exact ⟨(mem_versions_insert hid h).mpr (Or.inr hwaiting.read.1),
      (hsince hwaiting.read.1).not.mpr hwaiting.read.2⟩
  · intro version hversion hnot
    rcases (mem_versions_insert hid h).mp hversion with rfl | hversion
    · exact absurd List.mem_cons_self hnot
    · exact hwaiting.greatest version hversion ((hsince hversion).not.mp hnot)
  · intro version hversion
    rcases List.mem_cons.mp hversion with rfl | hversion
    · exact (mem_versions_insert hid h).mpr (Or.inl rfl)
    · exact (mem_versions_insert hid h).mpr (Or.inr (hwaiting.inserted version hversion))
  · intro payload
    refine (hwaiting.selected payload).trans ⟨?_, ?_⟩
    · rintro ⟨version, hversion, hnot, hmem⟩
      exact ⟨version, (mem_versions_insert hid h).mpr (Or.inr hversion),
        (hsince hversion).not.mpr hnot, holds_insert_of_mem hid h hversion ▸ hmem⟩
    · rintro ⟨version, hversion, hnot, hmem⟩
      rcases (mem_versions_insert hid h).mp hversion with rfl | hversion
      · exact absurd List.mem_cons_self hnot
      · rw [holds_insert_of_mem hid h hversion] at hmem
        exact ⟨version, hversion, (hsince hversion).not.mp hnot, hmem⟩

theorem Kept.insert (hkept : Kept id s) (hid : row.objectId = id)
    (h : s.table.insert row = .ok table) : Kept id (s.insert table row.version) := by
  refine ⟨hkept.toHeld.insert hid h, ?_⟩
  cases hkept.position with
  | start hstart => exact .start hstart
  | waiting htask hwaiting => exact .waiting htask (hwaiting.insert hid h)
  | done hdone => exact .done hdone

end Insert

/-! ## Calls -/

section Select
variable {next : Answer (.selectAll id) → Program Answer (Except AnyhowError Unit)}

theorem waiting_answer {last : ℤ × Value}
    (hlast : (s.table.selectAll id).getLast? = some last) :
    Waiting id (s.answer (.selectAll id) next) last.1 := by
  have hversions : s.table.versions id = (s.table.selectAll id).map (·.1) := by
    rw [DataTable.versions, DataTable.selectAll, List.map_map]
    rfl
  obtain ⟨older, hsplit⟩ := List.getLast?_eq_some_iff.mp hlast
  have hsorted : (s.table.versions id).Pairwise (· < ·) :=
    List.pairwise_map.mpr (s.table.history_sorted id)
  have hsplit : s.table.versions id = older.map (·.1) ++ [last.1] := by
    rw [hversions, hsplit, List.map_append, List.map_singleton]
  constructor
  · refine ⟨?_, List.not_mem_nil⟩
    show last.1 ∈ s.table.versions id
    simp [hsplit]
  · intro version hversion _
    have hversion : version ∈ s.table.versions id := hversion
    rw [hsplit, List.pairwise_append] at hsorted
    rw [hsplit] at hversion
    rcases List.mem_append.mp hversion with hold | heq
    · exact (hsorted.2.2 version hold last.1 (List.mem_singleton_self _)).le
    · exact (List.mem_singleton.mp heq).le
  · exact fun _ hversion => absurd hversion List.not_mem_nil
  · intro payload
    show payload ∈ (s.table.versions id).flatMap s.holds ↔ _
    rw [List.mem_flatMap]
    refine exists_congr fun version => and_congr_right fun _ => ?_
    exact (and_iff_right List.not_mem_nil).symm

end Select

section Commit
variable {newest : ℤ} {document : Value}
  {next : Answer (.commit [.delete id newest, .update document id newest]) →
    Program Answer (Except AnyhowError Unit)}

/-- The state after the transaction. -/
abbrev State.committed (s : State) (id : Uuid) (newest : ℤ) (document : Value)
    (next : Answer (.commit [.delete id newest, .update document id newest]) →
      Program Answer (Except AnyhowError Unit)) : State :=
  s.answer (.commit [.delete id newest, .update document id newest]) next

theorem mem_versions_committed {version : ℤ} :
    version ∈ (s.committed id newest document next).table.versions id ↔
      version ∈ s.table.versions id ∧ ¬ version < newest :=
  DataTable.mem_versions_transaction

theorem holds_committed_self :
    (s.committed id newest document next).holds newest = s.selected := Function.update_self ..

theorem holds_committed_of_ne {version : ℤ} (h : version ≠ newest) :
    (s.committed id newest document next).holds version = s.holds version :=
  Function.update_of_ne h _ _

theorem Waiting.selected_inserted (hwaiting : Waiting id s newest) (hkept : Held id s)
    {payload : Inserted} (h : payload ∈ s.selected) : payload ∈ s.inserted := by
  obtain ⟨version, hversion, -, hmem⟩ := (hwaiting.selected payload).mp h
  exact (hkept.holds version hversion).2 payload hmem

/-- Above the newest row that was selected there are only rows inserted since. -/
theorem Waiting.not_selected (hwaiting : Waiting id s newest) (hkept : Held id s) {version : ℤ}
    (hversion : version ∈ s.table.versions id) (hgreater : ¬ version < newest)
    (hne : version ≠ newest) {payload : Inserted} (hmem : payload ∈ s.holds version) :
    payload ∉ s.selected := by
  intro hselected
  obtain ⟨other, hother, hnot, hboth⟩ := (hwaiting.selected payload).mp hselected
  have heq := hkept.distinct version hversion other hother payload hmem hboth
  have hle := hwaiting.greatest other hother hnot
  omega

theorem Held.committed (hkept : Held id s) (hwaiting : Waiting id s newest)
    (hok : ∀ other ∈ s.since, ¬ other < newest) :
    Held id (s.committed id newest document next) := by
  have hnewest : newest ∈ (s.committed id newest document next).table.versions id :=
    mem_versions_committed.mpr ⟨hwaiting.read.1, lt_irrefl _⟩
  constructor
  · intro payload hpayload
    obtain ⟨version, hversion, hmem⟩ := hkept.nothingLost payload hpayload
    by_cases hsince : version ∈ s.since
    · have hne : version ≠ newest := fun heq => hwaiting.read.2 (heq ▸ hsince)
      refine ⟨version, mem_versions_committed.mpr ⟨hversion, hok version hsince⟩, ?_⟩
      rw [holds_committed_of_ne hne]
      exact hmem
    · refine ⟨newest, hnewest, ?_⟩
      rw [holds_committed_self, hwaiting.selected]
      exact ⟨version, hversion, hsince, hmem⟩
  · exact hkept.counted
  · intro version hversion
    obtain ⟨hversion, hgreater⟩ := mem_versions_committed.mp hversion
    by_cases hnew : version = newest
    · rw [hnew, holds_committed_self]
      obtain ⟨hne, -⟩ := hkept.holds newest hwaiting.read.1
      obtain ⟨payload, hpayload⟩ := List.exists_mem_of_ne_nil _ hne
      have hselected := (hwaiting.selected payload).mpr
        ⟨newest, hwaiting.read.1, hwaiting.read.2, hpayload⟩
      exact ⟨List.ne_nil_of_mem hselected,
        fun payload hmem => hwaiting.selected_inserted hkept hmem⟩
    · rw [holds_committed_of_ne hnew]
      exact hkept.holds version hversion
  · intro version hversion other hother payload hpayload hboth
    obtain ⟨hversion, hgreater⟩ := mem_versions_committed.mp hversion
    obtain ⟨hother, hgreaterOther⟩ := mem_versions_committed.mp hother
    by_cases hnew : version = newest <;> by_cases hnewOther : other = newest
    · rw [hnew, hnewOther]
    · rw [hnew, holds_committed_self] at hpayload
      rw [holds_committed_of_ne hnewOther] at hboth
      exact absurd hpayload (hwaiting.not_selected hkept hother hgreaterOther hnewOther hboth)
    · rw [hnewOther, holds_committed_self] at hboth
      rw [holds_committed_of_ne hnew] at hpayload
      exact absurd hboth (hwaiting.not_selected hkept hversion hgreater hnew hpayload)
    · rw [holds_committed_of_ne hnew] at hpayload
      rw [holds_committed_of_ne hnewOther] at hboth
      exact hkept.distinct version hversion other hother payload hpayload hboth

/-- The payload of a row that was inserted since and is deleted is nowhere else. -/
theorem Held.lost (hkept : Held id s) (hwaiting : Waiting id s newest) {other : ℤ}
    (hsince : other ∈ s.since) (hless : other < newest) :
    ¬ NothingLost id (s.committed id newest document next) := by
  intro hnothing
  have hother := hwaiting.inserted other hsince
  obtain ⟨hne, hinserted⟩ := hkept.holds other hother
  obtain ⟨payload, hpayload⟩ := List.exists_mem_of_ne_nil _ hne
  obtain ⟨version, hversion, hmem⟩ := hnothing payload (hinserted payload hpayload)
  obtain ⟨hversion, hgreater⟩ := mem_versions_committed.mp hversion
  by_cases hnew : version = newest
  · rw [hnew, holds_committed_self, hwaiting.selected] at hmem
    obtain ⟨row, hrow, hnot, hmem⟩ := hmem
    have heq := hkept.distinct other hother row hrow payload hpayload hmem
    exact hnot (heq ▸ hsince)
  · rw [holds_committed_of_ne hnew] at hmem
    have heq := hkept.distinct other hother version hversion payload hpayload hmem
    exact hgreater (heq ▸ hless)

end Commit

/-- The calls that the shrinker makes. -/
theorem Kept.call_cases (hkept : Kept id s) {q : Call}
    {next : Answer q → Program Answer (Except AnyhowError Unit)} (h : s.task = .call q next)
    {P : (q : Call) → (Answer q → Program Answer (Except AnyhowError Unit)) → Prop}
    (select : P (.selectAll id) (afterSelect id))
    (commit : ∀ newest document, Waiting id s newest →
      P (.commit [.delete id newest, .update document id newest])
        fun answer => .ret (answer.mapError .root)) : P q next := by
  cases hkept.position with
  | start hstart =>
    rw [hstart, run_shrinkById_eq] at h
    cases h
    exact select
  | waiting htask hwaiting =>
    rw [htask, beforeCommit] at h
    cases h
    exact commit _ _ hwaiting
  | done hdone =>
    rw [hdone] at h
    cases h

theorem Kept.failed (hkept : Kept id s) {q : Call}
    {next : Answer q → Program Answer (Except AnyhowError Unit)} (h : s.task = .call q next)
    (text : String) : ∃ result, next (failed text q) = .ret result :=
  hkept.call_cases h (P := fun q next => ∃ result, next (DbShrinkerPostgres.failed text q) =
    .ret result) ⟨_, rfl⟩ fun _ _ _ => ⟨_, rfl⟩

theorem Kept.answered (hkept : Kept id s) {q : Call}
    {next : Answer q → Program Answer (Except AnyhowError Unit)} (h : s.task = .call q next)
    (hok : Undisturbed id s .answer) : Kept id (s.answer q next) := by
  have hok : ∀ version, DeletesBelow id version (.call q next) →
      ∀ other ∈ s.since, ¬ other < version := h ▸ hok
  revert hok
  refine hkept.call_cases h (P := fun q next => (∀ version, DeletesBelow id version
    (.call q next) → ∀ other ∈ s.since, ¬ other < version) → Kept id (s.answer q next))
    (fun _ => ?_) fun newest document hwaiting hok => ?_
  · refine ⟨⟨hkept.nothingLost, hkept.counted, hkept.holds, hkept.distinct⟩, ?_⟩
    cases hlast : (s.table.selectAll id).getLast? with
    | none =>
      rw [List.getLast?_eq_none_iff] at hlast
      have hdone : afterSelect id (.ok (s.table.selectAll id)) = .ret (.error (.root
          "No rows with selected ID, did database change mid-shrink?")) := by
        rw [hlast]
        rfl
      exact .done hdone
    | some last =>
      obtain ⟨document, hnext⟩ : ∃ document, afterSelect id (.ok (s.table.selectAll id)) =
        beforeCommit id last.1 document := afterSelect_eq hlast
      exact .waiting hnext (waiting_answer hlast)
  · exact ⟨hkept.toHeld.committed hwaiting (hok newest List.mem_cons_self), .done rfl⟩

theorem Kept.lost (hkept : Kept id s) {q : Call}
    {next next' : Answer q → Program Answer (Except AnyhowError Unit)} (h : s.task = .call q next)
    (hbad : ¬ Undisturbed id s .answer) : ¬ NothingLost id (s.answer q next') := by
  simp only [Undisturbed, not_forall, not_not] at hbad
  obtain ⟨version, hdeletes, other, hother, hless⟩ := hbad
  rw [h] at hdeletes
  revert next' hdeletes
  refine @fun next' => hkept.call_cases h (P := fun q next => ∀ next', DeletesBelow id version
    (.call q next) → ¬ NothingLost id (s.answer q next'))
    (fun _ hdeletes => hdeletes.elim) (fun newest document hwaiting _ hdeletes => ?_) next'
  simp only [DeletesBelow, List.mem_cons, Statement.delete.injEq, true_and, reduceCtorEq, or_false,
    List.not_mem_nil] at hdeletes
  exact hkept.toHeld.lost hwaiting hother (hdeletes ▸ hless)

theorem kept_step (s : State) (action : Action) (s' : State) (hkept : Kept id s)
    (hstep : Step id s action s') (hok : Undisturbed id s action) : Kept id s' := by
  cases hstep with
  | insert hid h => exact hkept.insert hid h
  | answer h => exact hkept.answered h hok
  | lose h =>
    rename_i text
    obtain ⟨result, hresult⟩ := hkept.failed h text
    have hheld := (hkept.answered h hok).toHeld
    exact ⟨⟨hheld.nothingLost, hheld.counted, hheld.holds, hheld.distinct⟩, .done hresult⟩
  | fail h =>
    rename_i text
    obtain ⟨result, hresult⟩ := hkept.failed h text
    exact ⟨hkept.toHeld.withTask _, .done hresult⟩
  | restart h => exact ⟨hkept.toHeld.withTask _, .start rfl⟩

theorem lost_step (s : State) (action : Action) (s' : State) (hkept : Kept id s)
    (hstep : Step id s action s') (hbad : ¬ Undisturbed id s action) : ¬ NothingLost id s' := by
  cases hstep with
  | insert hid h => exact absurd trivial hbad
  | answer h => exact hkept.lost h hbad
  | lose h => exact hkept.lost h hbad
  | fail h => exact absurd trivial hbad
  | restart h => exact absurd trivial hbad

/-- No payload is lost in any state exactly if no transaction deletes a row that was inserted
between its `SELECT` and its commit. -/
theorem nothing_lost_iff {table : DataTable} {ts : List (Transition State Action)}
    (hrun : Run (Step id) (initially table id) ts s) :
    (∀ s ∈ states (initially table id) ts, NothingLost id s) ↔
      ∀ t ∈ ts, Undisturbed id t.before t.label :=
  hrun.states_iff (kept_initially table id) (fun _ h => h.nothingLost) kept_step lost_step

/-! ## A row that arrives between the `SELECT` and the commit -/

def twoRows : DataTable where
  rows := [⟨0, 1, 0, .null⟩, ⟨0, 3, 0, .null⟩]
  primaryKey := by decide

theorem history_twoRows : twoRows.history 0 = twoRows.rows :=
  DataTable.history_eq (by decide) fun row => by
    refine (and_iff_left_of_imp fun hrow => ?_).symm
    simp only [twoRows, List.mem_cons, List.not_mem_nil, or_false] at hrow
    rcases hrow with rfl | rfl <;> rfl

/-- The rows with the versions 1 and 3 are selected. -/
def selectedRows : State := (initially twoRows 0).answer (.selectAll 0) (afterSelect 0)

def threeRows : DataTable where
  rows := twoRows.rows ++ [⟨0, 2, 0, .null⟩]
  primaryKey := by decide

/-- The transaction deletes the row with the version 2. -/
def disturbed : State := (selectedRows.insert threeRows 2).committed 0 3 .null
  fun answer => .ret (answer.mapError .root)

theorem versions_twoRows : twoRows.versions 0 = [1, 3] := by
  rw [DataTable.versions, history_twoRows]
  rfl

theorem selectedRows_task : selectedRows.task = beforeCommit 0 3 .null := by
  show afterSelect 0 (.ok (twoRows.selectAll 0)) = _
  rw [DataTable.selectAll, history_twoRows]
  rfl

theorem insert_twoRows : twoRows.insert ⟨0, 2, 0, .null⟩ = .ok threeRows :=
  DataTable.insert_eq_ok.mpr ⟨by decide, rfl⟩

def disturbedRun : List (Transition State Action) :=
  [⟨initially twoRows 0, .answer, selectedRows⟩,
    ⟨selectedRows, .insert 2, selectedRows.insert threeRows 2⟩,
    ⟨selectedRows.insert threeRows 2, .answer, disturbed⟩]

theorem run_disturbed : Run (Step 0) (initially twoRows 0) disturbedRun disturbed := by
  have hselect : Step 0 (initially twoRows 0) .answer selectedRows := .answer run_shrinkById_eq
  have hinsert : Step 0 selectedRows (.insert 2) (selectedRows.insert threeRows 2) :=
    @Step.insert 0 selectedRows ⟨0, 2, 0, .null⟩ threeRows rfl insert_twoRows
  have htask : (selectedRows.insert threeRows 2).task = beforeCommit 0 3 .null := selectedRows_task
  have hcommit : Step 0 (selectedRows.insert threeRows 2) .answer disturbed := .answer htask
  exact ((Run.start.step hselect).step hinsert).step hcommit

theorem nothing_lost_iff_disturbedRun :
    (∀ s ∈ states (initially twoRows 0) disturbedRun, NothingLost 0 s) ↔
      ∀ t ∈ disturbedRun, Undisturbed 0 t.before t.label :=
  nothing_lost_iff run_disturbed

/-- The payload with the version 2 is neither a row of its own nor merged into the row that is
left. -/
theorem disturbed_loses : Run (Step 0) (initially twoRows 0) disturbedRun disturbed ∧
    (2, 1) ∈ disturbed.inserted ∧
    ∀ version ∈ disturbed.table.versions 0, (2, 1) ∉ disturbed.holds version := by
  refine ⟨run_disturbed, List.mem_cons_self, fun version hversion => ?_⟩
  obtain ⟨hversion, hgreater⟩ := mem_versions_committed.mp hversion
  have hversion : version = 2 ∨ version ∈ twoRows.versions 0 :=
    (DataTable.mem_versions_insert insert_twoRows).mp hversion
  rw [versions_twoRows] at hversion
  have hnewest : version = 3 := by
    simp only [List.mem_cons, List.not_mem_nil, or_false] at hversion
    omega
  have hholds : disturbed.holds 3 = (twoRows.versions 0).flatMap (initially twoRows 0).holds :=
    rfl
  rw [hnewest, hholds, versions_twoRows]
  decide

end CommonDataLayer.DbShrinkerPostgres
