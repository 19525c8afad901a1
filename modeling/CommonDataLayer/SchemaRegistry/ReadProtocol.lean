import CommonDataLayer.SchemaRegistry.CreationProtocol
import CommonDataLayer.SchemaRegistry.ImportExport

/-! # Reading, call by call

The reads of vertices and edges fail as a whole when one of the entries that a datastore call returns
cannot be decoded.

* `WholeAnswer`: nothing in an answer of the datastore is half created.
* `Reading`: if all answers so far were whole, and the schemas they listed.
* `follows_program`: a read whose answers are all whole returns no `MalformedError`.
-/
namespace CommonDataLayer.SchemaRegistry
open Interaction PropertyGraph
set_option autoImplicit false

inductive Read where
  | getAllSchemas
  | getSchemaVersions (id : Uuid)
  | getSchemaDefinition (id : VersionedUuid)
  | getAllViewsOfSchema (schemaId : Uuid)
  | exportAll

inductive Found where
  | schemas (entries : List (Uuid × Schema))
  | versions (versions : List (Version × Uuid))
  | definition (definition : SchemaDefinition)
  | views (entries : List (Uuid × View))
  | dump (dump : DbExport)

def Read.program (crates : Crates) : Read → Registry Found
  | getAllSchemas => do return .schemas (← SchemaRegistry.getAllSchemas)
  | getSchemaVersions id => do return .versions (← SchemaRegistry.getSchemaVersions crates id)
  | getSchemaDefinition id => do return .definition (← SchemaRegistry.getSchemaDefinition crates id)
  | getAllViewsOfSchema schemaId => do return .views (← SchemaRegistry.getAllViewsOfSchema schemaId)
  | exportAll => do return .dump (← SchemaRegistry.exportAll crates)

/-- All properties of the type are there, with values that are read back. -/
def WholeVertex (crates : Crates) (vertex : Vertex) : Prop :=
  ∀ name ∈ vertex.t.properties, ∃ value, vertex.props name = some value ∧ Fits crates name value

def WholeAnswer (crates : Crates) : (q : Call) → Answer q → Prop
  | .getEdgeProperties _ _ .version, .ok properties =>
    ∀ entry ∈ properties, Fits crates .version entry.2
  | .getAllVertexPropertiesOf t, .ok entries =>
    ∀ entry ∈ entries, entry.2.t = t ∧ WholeVertex crates entry.2
  | .getOutboundVertexProperties _ t, .ok entries =>
    ∀ entry ∈ entries, entry.2.t = t.target ∧ WholeVertex crates entry.2
  | .getAllEdgeProperties .schemaDefinition, .ok edges =>
    ∀ edge ∈ edges, ∃ value, edge.2 .version = some value ∧ Fits crates .version value
  | _, _ => True

/-- The call only reads. -/
def Call.Reads : Call → Prop
  | .transaction => True
  | .getVertices _ => True
  | .getVertexProperties _ _ => True
  | .getEdgeProperties _ _ _ => True
  | .getAllVertexPropertiesOf _ => True
  | .getOutboundVertexProperties _ _ => True
  | .getAllEdgeProperties _ => True
  | _ => False

structure Reading where
  /-- All answers so far were whole. -/
  whole : Prop
  listed : List Uuid

def Reading.start : Reading := { whole := True, listed := [] }

def Reading.after (crates : Crates) (phase : Reading) (q : Call) (a : Answer q) : Reading where
  whole := phase.whole ∧ WholeAnswer crates q a
  listed := match q, a with
    | .getAllVertexPropertiesOf .schema, .ok entries => entries.map (·.1)
    | _, _ => phase.listed

def readProtocol (crates : Crates) : Protocol Answer Reading where
  Allows _ q := q.Reads
  after := Reading.after crates

/-- From whole answers no `MalformedError` comes, and a value that is returned meets `post`. -/
def ReadsTo (crates : Crates) {α : Type} (post : α → Reading → Prop) (x : Registry α)
    (phase : Reading) : Prop :=
  x.run.Follows (readProtocol crates) (fun r reached =>
    (reached.whole → ∀ e, r ≠ .error (.malformedError e)) ∧ ∀ a, r = .ok a → post a reached) phase

section Programs
variable {crates : Crates} {α β : Type} {post : α → Reading → Prop} {phase : Reading}

theorem ReadsTo.bind {x : Registry α} {f : α → Registry β} {post' : β → Reading → Prop}
    (hx : ReadsTo crates post x phase)
    (hf : ∀ a reached, post a reached → ReadsTo crates post' (f a) reached) :
    ReadsTo crates post' (x >>= f) phase :=
  Program.Follows.except_bind hx (fun a reached hr => hf a reached (hr.2 a rfl)) fun e _ hr =>
    ⟨fun hwhole e' he => hr.1 hwhole e' (by cases he; rfl), nofun⟩

theorem readsTo_ret {r : Except RegistryError α} (hr : phase.whole → ∀ e, r ≠ .error (.malformedError e))
    (hpost : ∀ a, r = .ok a → post a phase) : ReadsTo crates post (ExceptT.mk (.ret r)) phase :=
  ⟨hr, hpost⟩

/-- What is computed from the answers so far. -/
theorem ReadsTo.ret_bind {r : Except RegistryError α} {f : α → Registry β}
    {post' : β → Reading → Prop} (hr : phase.whole → ∀ e, r ≠ .error (.malformedError e))
    (hf : ∀ a, ReadsTo crates post' (f a) phase) :
    ReadsTo crates post' (ExceptT.mk (.ret r) >>= f) phase := by
  have hret : ReadsTo crates (fun _ reached => reached = phase) (ExceptT.mk (.ret r)) phase :=
    readsTo_ret hr fun _ _ => rfl
  refine hret.bind fun a reached hreached => ?_
  rw [hreached]
  exact hf a

theorem readsTo_throw {e : RegistryError} (he : ∀ e', e ≠ .malformedError e') :
    ReadsTo crates post (throw e : Registry α) phase :=
  ⟨fun _ e' h => he e' (Except.error.inj h), nofun⟩

theorem readsTo_pure {a : α} (h : post a phase) : ReadsTo crates post (pure a : Registry α) phase := by
  refine ⟨fun _ _ => nofun, ?_⟩
  rintro _ ⟨⟩
  exact h

/-- One call of the datastore, whose error is not that of a decoder. -/
theorem readsTo_call {q : Call} {convert : Answer q → Except RegistryError α} {answered : α → Answer q}
    (hq : q.Reads) (hconvert : ∀ a e, convert a ≠ .error (.malformedError e))
    (hanswered : ∀ a b, convert a = .ok b → a = answered b) :
    ReadsTo crates (fun b reached => reached = phase.after crates q (answered b))
      (ExceptT.mk ((Program.perform q).bind fun a => .ret (convert a))) phase := by
  refine ⟨hq, fun a => ⟨fun _ => hconvert a, fun b hb => ?_⟩⟩
  show phase.after crates q a = phase.after crates q (answered b)
  rw [hanswered a b hb]

theorem mapError_ne_malformed {convert : String → RegistryError}
    (hconvert : ∀ text e, convert text ≠ .malformedError e) (a : Except String α) (e : MalformedError) :
    a.mapError convert ≠ .error (.malformedError e) := by
  cases a with
  | error text => exact fun h => hconvert text e (Except.error.inj h)
  | ok a => exact nofun

theorem readsTo_connect : ReadsTo crates (fun _ reached => reached = phase.after crates .transaction (.ok ()))
    connect phase :=
  readsTo_call trivial (mapError_ne_malformed nofun) fun _ _ => mapError_eq_ok.mp

theorem readsTo_getVertices (id : Uuid) : ReadsTo crates
    (fun t reached => reached = phase.after crates (.getVertices id) (.ok t)) (getVertices id) phase :=
  readsTo_call trivial (mapError_ne_malformed nofun) fun _ _ => mapError_eq_ok.mp

theorem readsTo_getVertexProperties (id : Uuid) (name : PropName) : ReadsTo crates
    (fun value reached => reached = phase.after crates (.getVertexProperties id name) (.ok value))
    (getVertexProperties id name) phase :=
  readsTo_call trivial (mapError_ne_malformed nofun) fun _ _ => mapError_eq_ok.mp

theorem readsTo_getEdgeProperties (id : Uuid) (t : EdgeType) (name : PropName) : ReadsTo crates
    (fun properties reached =>
      reached = phase.after crates (.getEdgeProperties id t name) (.ok properties))
    (getEdgeProperties id t name) phase :=
  readsTo_call trivial (mapError_ne_malformed nofun) fun _ _ => mapError_eq_ok.mp

theorem readsTo_getAllVertexPropertiesOf (t : VertexType) : ReadsTo crates
    (fun entries reached =>
      reached = phase.after crates (.getAllVertexPropertiesOf t) (.ok entries))
    (getAllVertexPropertiesOf t) phase :=
  readsTo_call trivial (mapError_ne_malformed nofun) fun _ _ => mapError_eq_ok.mp

theorem readsTo_getOutboundVertexProperties (id : Uuid) (t : EdgeType) : ReadsTo crates
    (fun entries reached =>
      reached = phase.after crates (.getOutboundVertexProperties id t) (.ok entries))
    (getOutboundVertexProperties id t) phase :=
  readsTo_call trivial (mapError_ne_malformed nofun) fun _ _ => mapError_eq_ok.mp

theorem readsTo_getAllEdgeProperties (t : EdgeType) : ReadsTo crates
    (fun edges reached => reached = phase.after crates (.getAllEdgeProperties t) (.ok edges))
    (getAllEdgeProperties t) phase :=
  readsTo_call trivial (mapError_ne_malformed nofun) fun _ _ => mapError_eq_ok.mp

/-! ## Decoding -/

/-- A property that is decoded by `ofValue`. -/
theorem WholeVertex.decoded {vertex : Vertex} (h : WholeVertex crates vertex) {name : PropName}
    (hname : name ∈ vertex.t.properties) {ofValue : Value → Option α}
    (hfits : ∀ value, Fits crates name value → ofValue value ≠ none) :
    ∃ a, vertex.props name >>= ofValue = some a := by
  obtain ⟨value, hvalue, hfit⟩ := h name hname
  obtain ⟨a, ha⟩ := Option.ne_none_iff_exists'.mp (hfits value hfit)
  exact ⟨a, by rw [hvalue]; exact ha⟩

theorem WholeVertex.schema {vertex : Vertex} (h : WholeVertex crates vertex) (ht : vertex.t = .schema) :
    Schema.fromProperties vertex.props ≠ none := by
  have hown : ∀ name ∈ VertexType.schema.properties, name ∈ vertex.t.properties := by simp [ht]
  obtain ⟨name, hname⟩ := h.decoded (hown .schemaName (by decide)) fun _ hfit => hfit
  obtain ⟨topic, htopic⟩ := h.decoded (hown .schemaTopicName (by decide)) fun _ hfit => hfit
  obtain ⟨address, haddress⟩ := h.decoded (hown .schemaQueryAddress (by decide)) fun _ hfit => hfit
  obtain ⟨type, htype⟩ := h.decoded (hown .schemaType (by decide)) fun _ hfit => hfit
  simp only [Schema.fromProperties, hname, htopic, haddress, htype]
  exact Option.some_ne_none _

theorem WholeVertex.definition {vertex : Vertex} (h : WholeVertex crates vertex)
    (ht : vertex.t = .definition) : Definition.fromProperties vertex.props ≠ none := by
  obtain ⟨value, hvalue, -⟩ := h .definition (by rw [ht]; decide)
  simp only [Definition.fromProperties, hvalue]
  exact Option.some_ne_none _

theorem WholeVertex.view {vertex : Vertex} (h : WholeVertex crates vertex) (ht : vertex.t = .view) :
    View.fromProperties vertex.props ≠ none := by
  have hown : ∀ name ∈ VertexType.view.properties, name ∈ vertex.t.properties := by simp [ht]
  obtain ⟨name, hname⟩ := h.decoded (hown .viewName (by decide)) fun _ hfit => hfit
  obtain ⟨jmespath, hjmespath⟩ := h.decoded (hown .jmespath (by decide)) fun _ hfit => hfit
  simp only [View.fromProperties, hname, hjmespath]
  exact Option.some_ne_none _

/-- No entry is malformed when all of them can be read. -/
theorem decodeVertices_ne {fromProperties : Props PropName Value → Option α}
    {malformed : Uuid → MalformedError} {entries : List (Uuid × Vertex)}
    (h : ∀ entry ∈ entries, fromProperties entry.2.props ≠ none) (e : RegistryError) :
    entries.mapM (decodeVertex fromProperties malformed) ≠ .error e := by
  intro herror
  obtain ⟨entry, hentry, he⟩ := mapM_error herror
  rw [decodeVertex] at he
  split at he
  · exact h entry hentry ‹_›
  · cases he

theorem decodeDefinitionEdges_ne {edges : List (EdgeKey × Props PropName Value)}
    (h : ∀ edge ∈ edges, ∃ value, edge.2 .version = some value ∧ Fits crates .version value)
    (e : RegistryError) : edges.mapM (decodeDefinitionEdge crates) ≠ .error e := by
  intro herror
  obtain ⟨edge, hedge, he⟩ := mapM_error herror
  obtain ⟨value, hvalue, hfits⟩ := h edge hedge
  obtain ⟨version, hversion⟩ := Option.ne_none_iff_exists'.mp hfits
  rw [decodeDefinitionEdge, SchemaDefinitionEdge.fromProperties, hvalue] at he
  simp only [Option.bind_eq_bind, Option.bind_some, hversion] at he
  cases he

/-! ## The reads -/

theorem readsTo_getAllSchemas : ReadsTo crates
    (fun entries reached => ∀ entry ∈ entries, entry.1 ∈ reached.listed) getAllSchemas phase := by
  refine readsTo_connect.bind ?_
  rintro _ _ rfl
  refine (readsTo_getAllVertexPropertiesOf .schema).bind ?_
  rintro entries _ rfl
  refine readsTo_ret (fun hwhole e => ?_) fun found hfound entry hentry => ?_
  · exact decodeVertices_ne (fun entry hentry => (hwhole.2 entry hentry).2.schema (hwhole.2 entry hentry).1) _
  · obtain ⟨vertex, hvertex, hdecoded⟩ := (mapM_ok hfound).2 entry hentry
    rw [decodeVertex] at hdecoded
    split at hdecoded
    · cases hdecoded
    · cases hdecoded
      exact List.mem_map_of_mem hvertex

theorem readsTo_getSchemaVersions (id : Uuid) :
    ReadsTo crates (fun _ _ => True) (getSchemaVersions crates id) phase := by
  refine readsTo_connect.bind ?_
  rintro _ _ rfl
  refine (readsTo_getEdgeProperties id .schemaDefinition .version).bind ?_
  rintro properties _ rfl
  refine readsTo_ret (fun hwhole e he => ?_) fun _ _ => trivial
  obtain ⟨found, hfound⟩ := versionsOf_eq_ok_iff.mpr fun entry hentry =>
    Option.isSome_iff_ne_none.mpr (hwhole.2 entry hentry)
  rw [hfound] at he
  cases he

theorem readsTo_getSchemaDefinition (id : VersionedUuid) :
    ReadsTo crates (fun _ _ => True) (getSchemaDefinition crates id) phase := by
  refine readsTo_connect.bind fun _ _ _ => ?_
  have hlatest (phase : Reading) :
      ReadsTo crates (fun _ _ => True) (getLatestValidSchemaVersion crates id) phase := by
    refine (readsTo_getSchemaVersions id.id).bind fun found reached _ => ?_
    cases maxByVersion (found.filter fun version => id.versionReq.accepts version.1) with
    | none => exact readsTo_throw nofun
    | some version => exact readsTo_pure trivial
  refine (hlatest _).bind fun version reached _ => ?_
  refine (readsTo_getVertexProperties version.2 .definition).bind fun value reached _ => ?_
  cases value with
  | none => exact readsTo_throw nofun
  | some value => exact readsTo_pure trivial

theorem readsTo_ensureSchemaExists (id : Uuid) :
    ReadsTo crates (fun _ _ => True) (ensureSchemaExists id) phase := by
  refine readsTo_connect.bind fun _ _ _ => (readsTo_getVertices id).bind fun t reached _ => ?_
  cases t with
  | none => exact readsTo_throw nofun
  | some t => exact readsTo_pure trivial

theorem readsTo_getAllViewsOfSchema (schemaId : Uuid) :
    ReadsTo crates (fun _ _ => True) (getAllViewsOfSchema schemaId) phase := by
  refine readsTo_connect.bind fun _ _ _ => (readsTo_ensureSchemaExists schemaId).bind fun _ _ _ => ?_
  refine (readsTo_getOutboundVertexProperties schemaId .schemaView).bind ?_
  rintro entries _ rfl
  refine readsTo_ret (fun hwhole e => ?_) fun _ _ => trivial
  exact decodeVertices_ne (fun entry hentry => (hwhole.2 entry hentry).2.view (hwhole.2 entry hentry).1) _

theorem readsTo_exportAll : ReadsTo crates (fun _ _ => True) (exportAll crates) phase := by
  refine readsTo_connect.bind ?_
  rintro _ _ rfl
  refine (readsTo_getAllVertexPropertiesOf .definition).bind ?_
  rintro definitions _ rfl
  refine (readsTo_getAllVertexPropertiesOf .schema).bind ?_
  rintro schemas _ rfl
  refine (readsTo_getAllVertexPropertiesOf .view).bind ?_
  rintro views _ rfl
  refine (readsTo_getAllEdgeProperties .schemaDefinition).bind ?_
  rintro schemaDefinitions _ rfl
  refine (readsTo_getAllEdgeProperties .schemaView).bind ?_
  rintro schemaViews _ rfl
  refine ReadsTo.ret_bind (fun hwhole e => ?_) fun found =>
    ReadsTo.ret_bind (fun hwhole e => ?_) fun found => ReadsTo.ret_bind (fun hwhole e => ?_) fun found =>
    ReadsTo.ret_bind (fun hwhole e => ?_) fun found => readsTo_pure trivial
  · obtain ⟨⟨⟨⟨⟨-, h⟩, -⟩, -⟩, -⟩, -⟩ := hwhole
    exact decodeVertices_ne (fun entry hentry => (h entry hentry).2.definition (h entry hentry).1) _
  · obtain ⟨⟨⟨⟨-, h⟩, -⟩, -⟩, -⟩ := hwhole
    exact decodeVertices_ne (fun entry hentry => (h entry hentry).2.schema (h entry hentry).1) _
  · obtain ⟨⟨⟨-, h⟩, -⟩, -⟩ := hwhole
    exact decodeVertices_ne (fun entry hentry => (h entry hentry).2.view (h entry hentry).1) _
  · obtain ⟨⟨-, h⟩, -⟩ := hwhole
    exact decodeDefinitionEdges_ne h _

/-- The schemas that are returned are among those that the datastore listed. -/
def Read.Lists (read : Read) (found : Found) (reached : Reading) : Prop :=
  ∀ entries, found = .schemas entries →
    read = .getAllSchemas ∧ ∀ entry ∈ entries, entry.1 ∈ reached.listed

theorem follows_program (read : Read) : ReadsTo crates read.Lists (read.program crates) .start := by
  cases read with
  | getAllSchemas =>
    refine readsTo_getAllSchemas.bind fun entries reached hlisted => readsTo_pure ?_
    rintro _ ⟨⟩
    exact ⟨rfl, hlisted⟩
  | getSchemaVersions id =>
    exact (readsTo_getSchemaVersions id).bind fun _ _ _ => readsTo_pure nofun
  | getSchemaDefinition id =>
    exact (readsTo_getSchemaDefinition id).bind fun _ _ _ => readsTo_pure nofun
  | getAllViewsOfSchema id =>
    exact (readsTo_getAllViewsOfSchema id).bind fun _ _ _ => readsTo_pure nofun
  | exportAll => exact readsTo_exportAll.bind fun _ _ _ => readsTo_pure nofun

end Programs
end CommonDataLayer.SchemaRegistry
