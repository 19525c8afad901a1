import CommonDataLayer.SchemaRegistry.ImportExport

/-! # The registry as a map of records

What the property graph is for: a map from identifiers to schemas and one from identifiers to views,
in which an update overwrites one field of one record.

* `Records.Step`: what a call does to the records, with its result. What the records do not hold, the
  definitions and their versions, appears only in the errors about them (`DefinitionError`,
  `VersionError`).
* `Represents`: the graph holds the records. Every call keeps it (`represents_step`).
* `Shows`: what each of the reads returns, as a function of the records.
* `refines_records`: every run of calls is one of the records, and the reads show them.
-/
namespace CommonDataLayer.SchemaRegistry
open Interaction PropertyGraph TransitionSystem
set_option autoImplicit false

/-! ## Records -/

structure Records where
  schemas : Uuid → Option Schema
  /-- The views, each with its schema. -/
  views : Uuid → Option (Uuid × View)

inductive Returned where
  | id (id : Uuid)
  | nothing
  | oldView (view : View)

/-- A call, with its result. -/
structure Called where
  op : Operation
  result : Except RegistryError Returned

/-- The field of a schema that a call overwrites. -/
def Operation.schemaUpdate : Operation → Option (Uuid × (Schema → Schema))
  | updateSchemaName id newName => some (id, fun schema => { schema with name := newName })
  | updateSchemaTopic id newTopic => some (id, fun schema => { schema with kafkaTopic := newTopic })
  | updateSchemaQueryAddress id newQueryAddress =>
    some (id, fun schema => { schema with queryAddress := newQueryAddress })
  | updateSchemaType id newSchemaType =>
    some (id, fun schema => { schema with schemaType := newSchemaType })
  | _ => none

/-- Why a definition is not accepted: a schema that it refers to has no version that can be read, or
the validator does not compile it. -/
inductive DefinitionError (crates : Crates) (definition : Value) : RegistryError → Prop where
  | noVersion {defs : List (String × Value)} {key : String} {id : Uuid}
      (hasDefs : definitionsOf definition = some defs)
      (refers : (key, id) ∈ schemasToRetrieve crates defs) :
      DefinitionError crates definition (.noVersionMatchesRequirement (.any id))
  | malformedVersion {defs : List (String × Value)} {key : String} {id : Uuid}
      (hasDefs : definitionsOf definition = some defs)
      (refers : (key, id) ∈ schemasToRetrieve crates defs) :
      DefinitionError crates definition (.malformedError (.malformedSchemaVersion id))
  | invalid {resolved : Value}
      (resolves : resolved = definition ∨ ∃ defs, resolved = setDefinitions definition defs)
      (refused : crates.compile resolved = false) : DefinitionError crates definition .invalidSchema

/-- Why a version of a schema that is there is not accepted. -/
inductive VersionError (crates : Crates) (id : Uuid) (schema : NewSchemaVersion) :
    RegistryError → Prop where
  | notGreatest {maxVersion : Version} (notAfter : (compare maxVersion schema.version).isGE) :
      VersionError crates id schema (.newVersionMustBeGreatest id maxVersion)
  | malformedVersion :
      VersionError crates id schema (.malformedError (.malformedSchemaVersion id))
  | definition {e : RegistryError} (refused : DefinitionError crates schema.definition e) :
      VersionError crates id schema e

namespace Records

def empty : Records := { schemas := fun _ => none, views := fun _ => none }

def setSchema (r : Records) (id : Uuid) (schema : Schema) : Records :=
  { r with schemas := Function.update r.schemas id (some schema) }

def setView (r : Records) (id schemaId : Uuid) (view : View) : Records :=
  { r with views := Function.update r.views id (some (schemaId, view)) }

@[simp] theorem schemas_setSchema (r : Records) (id : Uuid) (schema : Schema) :
    (r.setSchema id schema).schemas = Function.update r.schemas id (some schema) := rfl

@[simp] theorem views_setSchema (r : Records) (id : Uuid) (schema : Schema) :
    (r.setSchema id schema).views = r.views := rfl

@[simp] theorem schemas_setView (r : Records) (id schemaId : Uuid) (view : View) :
    (r.setView id schemaId view).schemas = r.schemas := rfl

@[simp] theorem views_setView (r : Records) (id schemaId : Uuid) (view : View) :
    (r.setView id schemaId view).views = Function.update r.views id (some (schemaId, view)) := rfl

/-- No record has the identifier. -/
def Free (r : Records) (id : Uuid) : Prop := r.schemas id = none ∧ r.views id = none

inductive Step (crates : Crates) : Records → Called → Records → Prop where
  | addSchema {r : Records} {schema : NewSchema} {newId : Option Uuid} {id : Uuid}
      (free : r.Free id) (given : ∀ i ∈ newId, i = id) :
      Step crates r ⟨.addSchema schema newId, .ok (.id id)⟩ (r.setSchema id schema.split.1)
  | addSchemaTaken {r : Records} {schema : NewSchema} {newId : Option Uuid} {id : Uuid}
      (given : id ∈ newId) : Step crates r ⟨.addSchema schema newId, .error (.duplicatedUuid id)⟩ r
  | addSchemaFails {r : Records} {schema : NewSchema} {newId : Option Uuid} {error : RegistryError}
      (refused : DefinitionError crates schema.definition error) :
      Step crates r ⟨.addSchema schema newId, .error error⟩ r
  | addVersion {r : Records} {id : Uuid} {schema : NewSchemaVersion} (found : r.schemas id ≠ none) :
      Step crates r ⟨.addNewVersionOfSchema id schema, .ok .nothing⟩ r
  | addVersionNoSchema {r : Records} {id : Uuid} {schema : NewSchemaVersion}
      (missing : r.schemas id = none) :
      Step crates r ⟨.addNewVersionOfSchema id schema, .error (.noSchemaWithId id)⟩ r
  | addVersionFails {r : Records} {id : Uuid} {schema : NewSchemaVersion} {error : RegistryError}
      (found : r.schemas id ≠ none) (refused : VersionError crates id schema error) :
      Step crates r ⟨.addNewVersionOfSchema id schema, .error error⟩ r
  | addView {r : Records} {schemaId id : Uuid} {view : View} {viewId : Option Uuid}
      (found : r.schemas schemaId ≠ none) (valid : crates.parseJmespath view.jmespath = .ok ())
      (free : r.Free id) (given : ∀ i ∈ viewId, i = id) :
      Step crates r ⟨.addViewToSchema schemaId view viewId, .ok (.id id)⟩ (r.setView id schemaId view)
  | addViewNoSchema {r : Records} {schemaId : Uuid} {view : View} {viewId : Option Uuid}
      (missing : r.schemas schemaId = none) :
      Step crates r ⟨.addViewToSchema schemaId view viewId, .error (.noSchemaWithId schemaId)⟩ r
  | addViewInvalid {r : Records} {schemaId : Uuid} {view : View} {viewId : Option Uuid} {text : String}
      (found : r.schemas schemaId ≠ none) (invalid : crates.parseJmespath view.jmespath = .error text) :
      Step crates r ⟨.addViewToSchema schemaId view viewId, .error (.invalidView text)⟩ r
  | addViewTaken {r : Records} {schemaId id : Uuid} {view : View} {viewId : Option Uuid}
      (found : r.schemas schemaId ≠ none) (valid : crates.parseJmespath view.jmespath = .ok ())
      (given : id ∈ viewId) :
      Step crates r ⟨.addViewToSchema schemaId view viewId, .error (.duplicatedUuid id)⟩ r
  | updateSchema {r : Records} {op : Operation} {id : Uuid} {field : Schema → Schema} {schema : Schema}
      (updates : op.schemaUpdate = some (id, field)) (found : r.schemas id = some schema) :
      Step crates r ⟨op, .ok .nothing⟩ (r.setSchema id (field schema))
  | noSchema {r : Records} {op : Operation} {id : Uuid} {field : Schema → Schema}
      (updates : op.schemaUpdate = some (id, field)) (missing : r.schemas id = none) :
      Step crates r ⟨op, .error (.noSchemaWithId id)⟩ r
  | updateView {r : Records} {id schemaId : Uuid} {update : ViewUpdate} {view : View}
      (found : r.views id = some (schemaId, view))
      (valid : ∀ jmespath ∈ update.jmespath, crates.parseJmespath jmespath = .ok ()) :
      Step crates r ⟨.updateView id update, .ok (.oldView view)⟩
        (r.setView id schemaId (update.applied view))
  | noView {r : Records} {id : Uuid} {update : ViewUpdate} (missing : r.views id = none) :
      Step crates r ⟨.updateView id update, .error (.noViewWithId id)⟩ r
  | invalidView {r : Records} {id : Uuid} {update : ViewUpdate} {jmespath text : String}
      (found : r.views id ≠ none) (given : jmespath ∈ update.jmespath)
      (invalid : crates.parseJmespath jmespath = .error text) :
      Step crates r ⟨.updateView id update, .error (.invalidView text)⟩ r

/-! ### What they say -/

def schema (r : Records) (id : Uuid) : Except RegistryError Schema :=
  match r.schemas id with
  | some schema => .ok schema
  | none => .error (.noSchemaWithId id)

def view (r : Records) (id : Uuid) : Except RegistryError View :=
  match r.views id with
  | some entry => .ok entry.2
  | none => .error (.noViewWithId id)

def viewsOf (r : Records) (schemaId id : Uuid) : Option View :=
  (r.views id).bind fun entry => if entry.1 = schemaId then some entry.2 else none

end Records

/-- The entries of a map, in any order. -/
structure Lists {α : Type} (entries : List (Uuid × α)) (map : Uuid → Option α) : Prop where
  nodup : (entries.map (·.1)).Nodup
  mem (id : Uuid) (a : α) : (id, a) ∈ entries ↔ map id = some a

/-- Every read returns what the records say, for identifiers that are not those of another vertex;
the two reads with this condition do not look at the type of the vertex. -/
structure Shows (broker : Broker) (w : World) (r : Records) : Prop where
  schema (id : Uuid) : ¬ NotSchema w.graph id → run broker (getSchema id) w = (r.schema id, w)
  schemaTopic (id : Uuid) : run broker (getSchemaTopic id) w = ((r.schema id).map (·.kafkaTopic), w)
  schemaQueryAddress (id : Uuid) :
    run broker (getSchemaQueryAddress id) w = ((r.schema id).map (·.queryAddress), w)
  schemaType (id : Uuid) : run broker (getSchemaType id) w = ((r.schema id).map (·.schemaType), w)
  allSchemas : ∃ entries, run broker getAllSchemas w = (.ok entries, w) ∧ Lists entries r.schemas
  allSchemaNames : ∃ entries, run broker getAllSchemaNames w = (.ok entries, w) ∧
    Lists entries fun id => (r.schemas id).map (·.name)
  view (id : Uuid) : run broker (getView id) w = (r.view id, w)
  allViewsOfSchema (id : Uuid) : ¬ NotSchema w.graph id → ∃ entries,
    run broker (getAllViewsOfSchema id) w = ((r.schema id).map fun _ => entries, w) ∧
      Lists entries (r.viewsOf id)

/-! ## The graph of the records -/

/-- What is at one identifier: a vertex, and the record it holds. -/
inductive HoldsRecord : Option Vertex → Option Schema → Option (Uuid × View) → Prop where
  | free : HoldsRecord none none none
  | schema (schema : Schema) : HoldsRecord (some schema.vertex.stored) (some schema) none
  | definition (definition : Definition) : HoldsRecord (some definition.vertex.stored) none none
  | view (schemaId : Uuid) (view : View) :
    HoldsRecord (some view.vertex.stored) none (some (schemaId, view))

structure Represents (g : Graph) (r : Records) : Prop where
  vertex (id : Uuid) : HoldsRecord (g.vertexAt id) (r.schemas id) (r.views id)
  viewEdge (schemaId id : Uuid) : g.edgeAt (schemaViewKey schemaId id) ≠ none ↔
    ∃ view, r.views id = some (schemaId, view)

theorem stored_schema_inj {schema schema' : Schema} :
    schema.vertex.stored = schema'.vertex.stored ↔ schema = schema' := by
  constructor
  · intro h
    have hread := congrArg (fun vertex => Schema.fromProperties vertex.props) h
    simpa [VertexData.stored, Schema.vertex, Schema.fromProperties_propsOf] using hread
  · rintro rfl
    rfl

theorem stored_view_inj {view view' : View} :
    view.vertex.stored = view'.vertex.stored ↔ view = view' := by
  constructor
  · intro h
    have hread := congrArg (fun vertex => View.fromProperties vertex.props) h
    simpa [VertexData.stored, View.vertex, View.fromProperties_propsOf] using hread
  · rintro rfl
    rfl

section Reads
variable {g : Graph} {r : Records} {broker : Broker} {α : Type}

theorem HoldsRecord.schema_iff {vertex : Option Vertex} {found : Option Schema}
    {view : Option (Uuid × View)} (h : HoldsRecord vertex found view) (schema : Schema) :
    vertex = some schema.vertex.stored ↔ found = some schema := by
  cases h with
  | free => simp
  | schema found => rw [Option.some.injEq, Option.some.injEq, stored_schema_inj]
  | definition definition => simp [VertexData.stored, Schema.vertex, Definition.vertex]
  | view schemaId view => simp [VertexData.stored, Schema.vertex, View.vertex]

theorem HoldsRecord.view_iff {vertex : Option Vertex} {schema : Option Schema}
    {found : Option (Uuid × View)} (h : HoldsRecord vertex schema found) (view : View) :
    vertex = some view.vertex.stored ↔ ∃ schemaId, found = some (schemaId, view) := by
  cases h with
  | free => simp
  | schema schema => simp [VertexData.stored, Schema.vertex, View.vertex]
  | definition definition => simp [VertexData.stored, View.vertex, Definition.vertex]
  | view schemaId found => simp [stored_view_inj]

theorem Represents.schema (h : Represents g r) (id : Uuid) (schema : Schema) :
    g.vertexAt id = some schema.vertex.stored ↔ r.schemas id = some schema :=
  (h.vertex id).schema_iff schema

theorem Represents.view (h : Represents g r) (id : Uuid) (view : View) :
    g.vertexAt id = some view.vertex.stored ↔ ∃ schemaId, r.views id = some (schemaId, view) :=
  (h.vertex id).view_iff view

theorem HoldsRecord.encoded {vertex : Vertex} {schema : Option Schema} {view : Option (Uuid × View)}
    (h : HoldsRecord (some vertex) schema view) : EncodedVertex vertex := by
  cases h with
  | schema schema => exact .schema schema
  | definition definition => exact .definition definition
  | view schemaId view => exact .view view

theorem Represents.encoded (h : Represents g r) (id : Uuid) (vertex : Vertex)
    (hvertex : g.vertexAt id = some vertex) : EncodedVertex vertex :=
  HoldsRecord.encoded (hvertex ▸ h.vertex id)

theorem represents_empty : Represents Graph.empty Records.empty where
  vertex id := by
    rw [Graph.vertexAt_empty]
    exact .free
  viewEdge schemaId id := by simp [Records.empty]

/-- A schema that is not in the records has no vertex. -/
theorem Represents.no_vertex (h : Represents g r) {id : Uuid} (hid : ¬ NotSchema g id)
    (hnone : r.schemas id = none) : g.vertexAt id = none := by
  by_contra hvertex
  obtain ⟨props, hprops⟩ := (schema_or_not hvertex).resolve_right hid
  obtain ⟨schema, hschema⟩ := (h.encoded id _ hprops).eq_schema rfl
  rw [hschema, h.schema, hnone] at hprops
  cases hprops

theorem HoldsRecord.of_none {schema : Option Schema} {view : Option (Uuid × View)}
    (h : HoldsRecord none schema view) : schema = none ∧ view = none := by
  cases h
  exact ⟨rfl, rfl⟩

theorem Represents.free (h : Represents g r) {id : Uuid} (hid : g.vertexAt id = none) : r.Free id :=
  HoldsRecord.of_none (hid ▸ h.vertex id)

theorem Lists.map {β : Type} {entries : List (Uuid × α)} {map : Uuid → Option α}
    (h : Lists entries map) (f : α → β) :
    Lists (entries.map fun entry => (entry.1, f entry.2)) fun id => (map id).map f where
  nodup := by simpa [Function.comp_def] using h.nodup
  mem id b := by
    simp only [List.mem_map, Option.map_eq_some_iff, ← h.mem, Prod.exists, Prod.mk.injEq]
    constructor
    · rintro ⟨id', a, hmem, rfl, rfl⟩
      exact ⟨a, hmem, rfl⟩
    · rintro ⟨a, hmem, rfl⟩
      exact ⟨id, a, hmem, rfl, rfl⟩

/-- What the entries of the vertices of one type say. -/
theorem lists_decoded {entries : List (Uuid × α)} {data : α → VertexData} {map : Uuid → Option α}
    {vertices : List (Uuid × Vertex)} (hinj : ∀ a b, (data a).stored = (data b).stored ↔ a = b)
    (hentries : entries.map (fun entry => (entry.1, (data entry.2).stored)) = vertices)
    (hnodup : (vertices.map (·.1)).Nodup)
    (hmem : ∀ id a, (id, (data a).stored) ∈ vertices ↔ map id = some a) : Lists entries map where
  nodup := by simpa [← hentries, Function.comp_def] using hnodup
  mem id a := by
    rw [← hmem, ← hentries, List.mem_map]
    constructor
    · exact fun h => ⟨(id, a), h, rfl⟩
    · rintro ⟨⟨id', a'⟩, h, heq⟩
      rw [Prod.mk.injEq, hinj] at heq
      obtain ⟨rfl, rfl⟩ := heq
      exact h

variable (w : World)

theorem Represents.getSchema (h : Represents w.graph r) {id : Uuid} (hid : ¬ NotSchema w.graph id) :
    run broker (getSchema id) w = (r.schema id, w) := by
  have hget : run broker (getAllVertexProperties id) w = (.ok (w.graph.vertexAt id), w) := rfl
  unfold SchemaRegistry.getSchema Records.schema
  rw [run_bind_ok (run_connect w), run_bind_ok hget]
  cases hschema : r.schemas id with
  | none =>
    rw [h.no_vertex hid hschema]
    rfl
  | some schema =>
    have hread : Schema.fromProperties schema.vertex.stored.props = some schema :=
      schema.fromProperties_propsOf
    rw [(h.schema id schema).mpr hschema]
    simp only [hread, run_pure]

/-- The property of a schema that is read by itself. -/
theorem Represents.getSchemaProperty (h : Represents w.graph r) {name : PropName}
    {ofValue : Value → Option α} {field : Schema → α} (hname : name ∈ VertexType.schema.properties)
    (hfield : ∀ schema : Schema,
      (schema.vertex.stored.props name).bind ofValue = some (field schema)) (id : Uuid) :
    run broker (getSchemaProperty name ofValue id) w = ((r.schema id).map field, w) := by
  have hget : run broker (getVertexProperties id name) w =
    (.ok ((w.graph.vertexAt id).bind (·.props name)), w) := rfl
  unfold SchemaRegistry.getSchemaProperty Records.schema
  rw [run_bind_ok (run_connect w), run_bind_ok hget]
  cases hschema : r.schemas id with
  | none =>
    have hnone : (w.graph.vertexAt id).bind (·.props name) = none := by
      cases hvertex : w.graph.vertexAt id with
      | none => rfl
      | some vertex =>
        have hencoded := h.encoded id vertex hvertex
        by_contra hne
        have ht := eq_schema_of_property hname ((hencoded.own name).mp hne)
        obtain ⟨schema, rfl⟩ := hencoded.eq_schema ht
        rw [(h.schema id schema).mp hvertex] at hschema
        cases hschema
    rw [hnone]
    rfl
  | some schema =>
    obtain ⟨value, hvalue, hof⟩ := Option.bind_eq_some_iff.mp (hfield schema)
    rw [(h.schema id schema).mpr hschema, Option.bind_some, hvalue]
    simp only [hof, run_pure]
    rfl

theorem Represents.viewAt (h : Represents g r) (id : Uuid) : viewAt g id = r.view id := by
  unfold SchemaRegistry.viewAt Records.view
  cases hview : r.views id with
  | none =>
    have hnone : (g.vertexAt id).filter (fun vertex => vertex.t = .view) = none := by
      refine Option.filter_eq_none_iff.mpr fun vertex hvertex ht => ?_
      obtain ⟨view, rfl⟩ := (h.encoded id vertex hvertex).eq_view (of_decide_eq_true ht)
      obtain ⟨schemaId, hsome⟩ := (h.view id view).mp hvertex
      rw [hview] at hsome
      cases hsome
    rw [hnone]
  | some entry =>
    have hread : View.fromProperties entry.2.vertex.stored.props = some entry.2 :=
      entry.2.fromProperties_propsOf
    rw [(h.view id entry.2).mpr ⟨entry.1, hview⟩,
      Option.filter_some_pos (by simp [VertexData.stored, View.vertex])]
    simp only [hread]

theorem Represents.getView (h : Represents w.graph r) (id : Uuid) :
    run broker (getView id) w = (r.view id, w) := by
  rw [run_getView, h.viewAt]

theorem Represents.decodeSchemas (h : Represents g r) : ∃ entries,
    (g.verticesOf .schema).mapM (decodeVertex Schema.fromProperties .malformedSchema) = .ok entries ∧
      entries.map (fun entry => (entry.1, entry.2.vertex.stored)) = g.verticesOf .schema ∧
      Lists entries r.schemas := by
  obtain ⟨entries, hdecoded, hentries⟩ := decodeVertices MalformedError.malformedSchema
    Schema.vertex .schema Schema.fromProperties_propsOf fun id vertex hid ht =>
      (h.encoded id vertex hid).eq_schema ht
  refine ⟨entries, hdecoded, hentries, lists_decoded (fun _ _ => stored_schema_inj) hentries
    (g.nodup_verticesOf .schema) fun id schema => ?_⟩
  rw [Graph.mem_verticesOf, h.schema, and_iff_left]
  rfl

theorem Represents.getAllSchemas (h : Represents w.graph r) : ∃ entries,
    run broker getAllSchemas w = (.ok entries, w) ∧ Lists entries r.schemas := by
  obtain ⟨entries, hdecoded, -, hlists⟩ := h.decodeSchemas
  have hget : run broker (getAllVertexPropertiesOf .schema) w =
    (.ok (w.graph.verticesOf .schema), w) := rfl
  refine ⟨entries, ?_, hlists⟩
  unfold SchemaRegistry.getAllSchemas
  rw [run_bind_ok (run_connect w), run_bind_ok hget, run_mk_ret, hdecoded]

theorem Represents.getAllSchemaNames (h : Represents w.graph r) : ∃ entries,
    run broker getAllSchemaNames w = (.ok entries, w) ∧
      Lists entries fun id => (r.schemas id).map (·.name) := by
  obtain ⟨entries, -, hentries, hlists⟩ := h.decodeSchemas
  have hget : run broker (getVertexPropertiesOf .schema .schemaName) w =
    (.ok ((w.graph.verticesOf .schema).filterMap fun entry =>
      (entry.2.props .schemaName).map (entry.1, ·)), w) := rfl
  have hnames : (w.graph.verticesOf .schema).filterMap (fun entry =>
      (entry.2.props .schemaName).map (entry.1, ·)) =
      entries.map fun entry => (entry.1, Value.string entry.2.name) := by
    rw [← hentries, List.filterMap_map]
    exact congrFun (List.filterMap_eq_map (f := fun entry : Uuid × Schema =>
      (entry.1, Value.string entry.2.name))) entries
  have hdecode : ∀ entry : Uuid × Schema,
    decodeName (entry.1, .string entry.2.name) = .ok (entry.1, entry.2.name) := fun _ => rfl
  refine ⟨_, ?_, hlists.map Schema.name⟩
  unfold SchemaRegistry.getAllSchemaNames
  rw [run_bind_ok (run_connect w), run_bind_ok hget, run_mk_ret, hnames, mapM_map_eq_ok hdecode]

/-- The vertices to which edges of the type `SCHEMA_VIEW` lead. -/
def attachedViews (g : Graph) (schemaId : Uuid) : List (Uuid × Vertex) :=
  (g.outbound schemaId .schemaView).filterMap fun edge =>
    (g.vertexAt edge.1.inboundId).map (edge.1.inboundId, ·)

theorem mem_attachedViews {schemaId viewId : Uuid} {vertex : Vertex} :
    (viewId, vertex) ∈ attachedViews g schemaId ↔
      g.edgeAt (schemaViewKey schemaId viewId) ≠ none ∧ g.vertexAt viewId = some vertex := by
  simp only [attachedViews, List.mem_filterMap, Prod.exists, Graph.mem_outbound,
    Option.map_eq_some_iff, Prod.mk.injEq]
  constructor
  · rintro ⟨⟨schemaId, t, viewId⟩, props, ⟨rfl, rfl, hedge⟩, _, hvertex, rfl, rfl⟩
    refine ⟨?_, hvertex⟩
    rw [schemaViewKey, hedge]
    exact Option.some_ne_none _
  · rintro ⟨hedge, hvertex⟩
    obtain ⟨props, hprops⟩ := Option.ne_none_iff_exists'.mp hedge
    exact ⟨schemaViewKey schemaId viewId, props, ⟨rfl, rfl, hprops⟩, vertex, hvertex, rfl, rfl⟩

theorem nodup_attachedViews (g : Graph) (schemaId : Uuid) :
    ((attachedViews g schemaId).map (·.1)).Nodup := by
  refine List.pairwise_map.mpr (List.pairwise_filterMap.mpr ?_)
  refine (List.pairwise_map.mp (g.nodup_outbound schemaId .schemaView)).imp fun hne x hx y hy => ?_
  obtain ⟨_, -, rfl⟩ := Option.map_eq_some_iff.mp hx
  obtain ⟨_, -, rfl⟩ := Option.map_eq_some_iff.mp hy
  exact hne

theorem Represents.decodeViews (h : Represents g r) (schemaId : Uuid) : ∃ entries,
    (attachedViews g schemaId).mapM (decodeVertex View.fromProperties .malformedView) = .ok entries ∧
      Lists entries (r.viewsOf schemaId) := by
  have hviews : ∀ entry ∈ attachedViews g schemaId, ∃ decoded : Uuid × View,
      decodeVertex View.fromProperties .malformedView entry = .ok decoded ∧
        (decoded.1, decoded.2.vertex.stored) = entry := by
    rintro ⟨viewId, vertex⟩ hentry
    obtain ⟨hedge, hvertex⟩ := mem_attachedViews.mp hentry
    obtain ⟨view, hview⟩ := (h.viewEdge schemaId viewId).mp hedge
    rw [(h.view viewId view).mpr ⟨schemaId, hview⟩, Option.some.injEq] at hvertex
    subst hvertex
    have hread : View.fromProperties view.vertex.stored.props = some view := view.fromProperties_propsOf
    refine ⟨(viewId, view), ?_, rfl⟩
    simp only [decodeVertex, hread]
  obtain ⟨entries, hdecoded, hentries⟩ := mapM_eq_ok hviews
  refine ⟨entries, hdecoded, lists_decoded (fun _ _ => stored_view_inj) hentries
    (nodup_attachedViews g schemaId) fun viewId view => ?_⟩
  rw [mem_attachedViews, h.viewEdge, h.view, Records.viewsOf]
  cases r.views viewId with
  | none => simp
  | some entry =>
    obtain ⟨parent, stored⟩ := entry
    simp [and_comm]

theorem Represents.getAllViewsOfSchema (h : Represents w.graph r) {id : Uuid}
    (hid : ¬ NotSchema w.graph id) : ∃ entries,
    run broker (getAllViewsOfSchema id) w = ((r.schema id).map fun _ => entries, w) ∧
      Lists entries (r.viewsOf id) := by
  obtain ⟨entries, hdecoded, hlists⟩ := h.decodeViews id
  have hget : run broker (getOutboundVertexProperties id .schemaView) w =
    (.ok (attachedViews w.graph id), w) := rfl
  refine ⟨entries, ?_, hlists⟩
  unfold SchemaRegistry.getAllViewsOfSchema Records.schema
  rw [run_bind_ok (run_connect w), run_bind, run_ensureSchemaExists]
  cases hschema : r.schemas id with
  | none =>
    rw [if_pos (h.no_vertex hid hschema)]
    rfl
  | some schema =>
    have hvertex : w.graph.vertexAt id ≠ none := by
      rw [(h.schema id schema).mpr hschema]
      exact Option.some_ne_none _
    rw [if_neg hvertex]
    dsimp only
    rw [run_bind_ok hget, run_mk_ret, hdecoded]
    rfl

theorem Represents.shows (h : Represents w.graph r) : Shows broker w r where
  schema _ hid := h.getSchema w hid
  schemaTopic := h.getSchemaProperty w (by decide) fun _ => rfl
  schemaQueryAddress := h.getSchemaProperty w (by decide) fun _ => rfl
  schemaType := h.getSchemaProperty w (by decide) fun schema => SchemaType.ofValue_text schema.schemaType
  allSchemas := h.getAllSchemas w
  allSchemaNames := h.getAllSchemaNames w
  view := h.getView w
  allViewsOfSchema _ hid := h.getAllViewsOfSchema w hid

end Reads

/-! ## Refusals -/

section Refusals
variable {crates : Crates} {g : Graph} {id : Uuid} {e : RegistryError}

theorem versionsOf_error {properties : List (EdgeKey × Value)}
    (h : versionsOf crates id properties = .error e) :
    e = .malformedError (.malformedSchemaVersion id) := by
  induction properties with
  | nil => cases h
  | cons entry rest ih =>
    rw [versionsOf] at h
    cases hversion : crates.versionOfValue entry.2 with
    | none =>
      rw [hversion] at h
      cases h
      rfl
    | some version =>
      rw [hversion] at h
      obtain hrest | ⟨_, -, hok⟩ := bind_eq_error.mp h
      · exact ih hrest
      · cases hok

theorem versions_error (h : versions crates g id = .error e) :
    e = .malformedError (.malformedSchemaVersion id) :=
  versionsOf_error h

theorem latestVersion_error {required : VersionedUuid} (h : latestVersion crates g required = .error e) :
    e = .noVersionMatchesRequirement required ∨
      e = .malformedError (.malformedSchemaVersion required.id) := by
  obtain hversions | ⟨found, -, hmax⟩ := bind_eq_error.mp h
  · exact Or.inr (versions_error hversions)
  · cases hgreatest : maxByVersion (found.filter fun version => required.versionReq.accepts version.1) with
    | none =>
      simp only [hgreatest, Except.error.injEq] at hmax
      exact Or.inl hmax.symm
    | some version =>
      simp only [hgreatest] at hmax
      cases hmax

theorem latestDefinition_error {required : VersionedUuid}
    (h : latestDefinition crates g required = .error e) :
    e = .noVersionMatchesRequirement required ∨
      e = .malformedError (.malformedSchemaVersion required.id) := by
  obtain hversion | ⟨⟨version, vertexId⟩, -, hread⟩ := bind_eq_error.mp h
  · exact latestVersion_error hversion
  · cases hdefinition : definitionAt g vertexId with
    | none =>
      simp only [hdefinition, Except.error.injEq] at hread
      exact Or.inl hread.symm
    | some value =>
      simp only [hdefinition] at hread
      cases hread

theorem retrieve_error {ids : List (String × Uuid)} {defs : List (String × Value)}
    (h : retrieve crates g ids defs = .error e) : ∃ key id, (key, id) ∈ ids ∧
      (e = .noVersionMatchesRequirement (.any id) ∨
        e = .malformedError (.malformedSchemaVersion id)) := by
  induction ids generalizing defs with
  | nil => cases h
  | cons entry rest ih =>
    obtain hentry | ⟨schema, -, hrest⟩ := bind_eq_error.mp h
    · exact ⟨entry.1, entry.2, List.mem_cons_self, latestDefinition_error hentry⟩
    · obtain ⟨key, id, hmem, he⟩ := ih hrest
      exact ⟨key, id, List.mem_cons_of_mem _ hmem, he⟩

theorem fullSchema_error {definition : Value} (h : fullSchema crates g definition = .error e) :
    DefinitionError crates definition e := by
  obtain hresolve | ⟨resolved, hresolve, hcompile⟩ := bind_eq_error.mp h <;> unfold resolve at hresolve
  · cases hdefs : definitionsOf definition with
    | none =>
      rw [hdefs] at hresolve
      cases hresolve
    | some defs =>
      rw [hdefs] at hresolve
      obtain hretrieve | ⟨_, -, hok⟩ := bind_eq_error.mp hresolve
      · obtain ⟨key, id, hmem, rfl | rfl⟩ := retrieve_error hretrieve
        · exact .noVersion hdefs hmem
        · exact .malformedVersion hdefs hmem
      · cases hok
  · have hresolves : resolved = definition ∨ ∃ defs, resolved = setDefinitions definition defs := by
      cases hdefs : definitionsOf definition with
      | none =>
        rw [hdefs] at hresolve
        exact Or.inl (Except.ok.inj hresolve).symm
      | some defs =>
        rw [hdefs] at hresolve
        obtain ⟨defs', -, hok⟩ := bind_eq_ok.mp hresolve
        exact Or.inr ⟨defs', (Except.ok.inj hok).symm⟩
    cases hvalid : crates.compile resolved with
    | true =>
      rw [hvalid] at hcompile
      cases hcompile
    | false =>
      rw [hvalid] at hcompile
      cases hcompile
      exact .invalid hresolves hvalid

theorem greatestVersion_error {schema : NewSchemaVersion}
    (h : greatestVersion crates g id schema.version = .error e) : VersionError crates id schema e := by
  obtain hversions | ⟨found, -, hmax⟩ := bind_eq_error.mp h
  · rw [versions_error hversions]
    exact .malformedVersion
  · cases hgreatest : maxByVersion found with
    | none =>
      simp only [hgreatest] at hmax
      cases hmax
    | some entry =>
      simp only [hgreatest] at hmax
      split at hmax
      · rename_i hnotAfter
        cases hmax
        exact .notGreatest hnotAfter
      · cases hmax

end Refusals

/-! ## The calls -/

namespace Operation

/-- Runs a program for what it returns. -/
def returning {α : Type} (returned : α → Returned) (x : Registry α) : Registry Returned := do
  let a ← x
  return returned a

def call (crates : Crates) : Operation → Registry Returned
  | addSchema schema newId => returning .id (SchemaRegistry.addSchema crates schema newId)
  | addNewVersionOfSchema id schema =>
    returning (fun _ => .nothing) (SchemaRegistry.addNewVersionOfSchema crates id schema)
  | addViewToSchema schemaId view viewId =>
    returning .id (SchemaRegistry.addViewToSchema crates schemaId view viewId)
  | updateSchemaName id newName =>
    returning (fun _ => .nothing) (SchemaRegistry.updateSchemaName id newName)
  | updateSchemaTopic id newTopic =>
    returning (fun _ => .nothing) (SchemaRegistry.updateSchemaTopic id newTopic)
  | updateSchemaQueryAddress id newQueryAddress =>
    returning (fun _ => .nothing) (SchemaRegistry.updateSchemaQueryAddress id newQueryAddress)
  | updateSchemaType id newSchemaType =>
    returning (fun _ => .nothing) (SchemaRegistry.updateSchemaType id newSchemaType)
  | updateView id view => returning .oldView (SchemaRegistry.updateView crates id view)

end Operation

/-- One call on the database, with new identifiers. -/
def Calls (crates : Crates) (broker : Broker) (g : Graph) (called : Called) (g' : Graph) : Prop :=
  ∃ w : World, w.graph = g ∧ Fresh w.supply w.graph called.op.given ∧
    ∃ w', run broker (called.op.call crates) w = (called.result, w') ∧ w'.graph = g'

section Calls
variable {crates : Crates} {broker : Broker} {g g' : Graph} {r : Records} {draw : ℕ → Uuid} {id d : Uuid}

/-- What a call comes to: an error and the graph as it was, or a value and the graph it leaves. -/
def ComesTo {α : Type} (g : Graph) (returned : α → Returned) (outcome : Except RegistryError (α × Graph))
    (result : Except RegistryError Returned) (g' : Graph) : Prop :=
  (∃ e, outcome = .error e ∧ result = .error e ∧ g' = g) ∨
    ∃ a, outcome = .ok (a, g') ∧ result = .ok (returned a)

theorem run_returning {α : Type} {returned : α → Returned} {x : Registry α} {w w' : World}
    {drawn : ℕ} {outcome : Except RegistryError (α × Graph)} {result : Except RegistryError Returned}
    (hx : run broker x w = w.settle drawn outcome)
    (hrun : run broker (Operation.returning returned x) w = (result, w')) :
    ComesTo w.graph returned outcome result w'.graph := by
  unfold Operation.returning at hrun
  rw [run_bind, hx] at hrun
  cases outcome with
  | error e =>
    cases hrun
    exact Or.inl ⟨e, rfl, rfl, rfl⟩
  | ok value =>
    cases hrun
    exact Or.inr ⟨value.1, rfl, rfl⟩

theorem Represents.putSchema (h : Represents g r) (hid : g.vertexAt id = none) (schema : Schema) :
    Represents (g.putVertex id .schema schema.intoProperties) (r.setSchema id schema) where
  vertex i := by
    rw [Graph.vertexAt_putVertex _ hid]
    by_cases hi : id = i
    · subst hi
      rw [if_pos rfl, Records.schemas_setSchema, Function.update_self, Records.views_setSchema,
        (h.free hid).2]
      exact .schema schema
    · rw [if_neg hi, Records.schemas_setSchema, Function.update_of_ne (Ne.symm hi)]
      exact h.vertex i
  viewEdge schemaId i := by
    rw [Graph.edgeAt_putVertex]
    exact h.viewEdge schemaId i

theorem Represents.withDefinition (h : Represents g r) (hid : g.vertexAt id ≠ none)
    (hd : g.vertexAt d = none) (version : Version) (definition : Definition) :
    Represents (withDefinition crates g id d version definition) r where
  vertex i := by
    rw [vertexAt_withDefinition hd]
    by_cases hi : d = i
    · subst hi
      rw [if_pos rfl, (h.free hd).1, (h.free hd).2]
      exact .definition definition
    · rw [if_neg hi]
      exact h.vertex i
  viewEdge schemaId i := by
    rw [edgeAt_withDefinition hid hd, if_neg (by simp [schemaDefinitionKey, schemaViewKey])]
    exact h.viewEdge schemaId i

theorem Represents.withView (h : Represents g r) {schemaId : Uuid} (hschema : g.vertexAt schemaId ≠ none)
    (hid : g.vertexAt id = none) (view : View) :
    Represents (withView g schemaId id view) (r.setView id schemaId view) where
  vertex i := by
    rw [vertexAt_withView hid]
    by_cases hi : id = i
    · subst hi
      rw [if_pos rfl, Records.views_setView, Function.update_self, Records.schemas_setView, (h.free hid).1]
      exact .view schemaId view
    · rw [if_neg hi, Records.views_setView, Function.update_of_ne (Ne.symm hi)]
      exact h.vertex i
  viewEdge parent i := by
    rw [edgeAt_withView hschema hid, Records.views_setView]
    by_cases hi : i = id
    · subst hi
      have hnone := (h.viewEdge parent i).not.mpr (by simp [(h.free hid).2])
      rw [not_not.mp hnone, Function.update_self]
      by_cases hparent : schemaId = parent
      · simp [hparent]
      · simp [hparent, schemaViewKey]
    · rw [Function.update_of_ne hi, if_neg fun heq => hi (congrArg EdgeKey.inboundId heq).symm]
      exact h.viewEdge parent i

theorem HoldsRecord.setSchema {vertex : Option Vertex} {schema : Schema} {view : Option (Uuid × View)}
    (h : HoldsRecord vertex (some schema) view) (schema' : Schema) :
    HoldsRecord (some schema'.vertex.stored) (some schema') view := by
  cases h
  exact .schema schema'

theorem HoldsRecord.setView {vertex : Option Vertex} {schema : Option Schema} {schemaId : Uuid}
    {view : View} (h : HoldsRecord vertex schema (some (schemaId, view))) (view' : View) :
    HoldsRecord (some view'.vertex.stored) schema (some (schemaId, view')) := by
  cases h
  exact .view schemaId view'

/-- Setting properties of one vertex. -/
theorem vertexAt_updated {values : List (PropName × Value)} {data data' : VertexData}
    (hid : g.vertexAt id = some data.stored)
    (hvalues : data.stored.props.setAll values = data'.stored.props) (ht : data.t = data'.t) (i : Uuid) :
    (g.setVertexProperties id values).vertexAt i =
      if id = i then some data'.stored else g.vertexAt i := by
  rw [Graph.vertexAt_setVertexProperties]
  by_cases hi : id = i
  · subst hi
    rw [if_pos rfl, if_pos rfl, hid, Option.map_some, hvalues]
    simp only [VertexData.stored, ht]
  · rw [if_neg hi, if_neg hi]

theorem Represents.setSchema (h : Represents g r) {schema schema' : Schema}
    {values : List (PropName × Value)} (hschema : r.schemas id = some schema)
    (hvalues : schema.vertex.stored.props.setAll values = schema'.vertex.stored.props) :
    Represents (g.setVertexProperties id values) (r.setSchema id schema') where
  vertex i := by
    rw [vertexAt_updated ((h.schema id schema).mpr hschema) hvalues rfl]
    by_cases hi : id = i
    · subst hi
      rw [if_pos rfl, Records.schemas_setSchema, Function.update_self]
      exact HoldsRecord.setSchema (hschema ▸ h.vertex id) schema'
    · rw [if_neg hi, Records.schemas_setSchema, Function.update_of_ne (Ne.symm hi)]
      exact h.vertex i
  viewEdge schemaId i := by
    rw [Graph.edgeAt_setVertexProperties]
    exact h.viewEdge schemaId i

theorem Represents.setView (h : Represents g r) {schemaId : Uuid} {view view' : View}
    {values : List (PropName × Value)} (hview : r.views id = some (schemaId, view))
    (hvalues : view.vertex.stored.props.setAll values = view'.vertex.stored.props) :
    Represents (g.setVertexProperties id values) (r.setView id schemaId view') where
  vertex i := by
    rw [vertexAt_updated ((h.view id view).mpr ⟨schemaId, hview⟩) hvalues rfl]
    by_cases hi : id = i
    · subst hi
      rw [if_pos rfl, Records.views_setView, Function.update_self]
      exact HoldsRecord.setView (hview ▸ h.vertex id) view'
    · rw [if_neg hi, Records.views_setView, Function.update_of_ne (Ne.symm hi)]
      exact h.vertex i
  viewEdge parent i := by
    rw [Graph.edgeAt_setVertexProperties, h.viewEdge, Records.views_setView]
    by_cases hi : i = id
    · subst hi
      simp [hview]
    · rw [Function.update_of_ne hi]

theorem Represents.updateSchemaProperty (h : Represents g r) (hid : ¬ NotSchema g id) {op : Operation}
    {field : Schema → Schema} (hop : op.schemaUpdate = some (id, field)) {name : PropName}
    {value : String} (hfield : ∀ schema : Schema,
      schema.vertex.stored.props.setAll [(name, .string value)] = (field schema).vertex.stored.props)
    {result : Except RegistryError Returned}
    (hcomes : ComesTo g (fun _ => .nothing) (updateSchemaPropertyOutcome g name id value) result g') :
    ∃ r', Records.Step crates r ⟨op, result⟩ r' ∧ Represents g' r' := by
  cases hschema : r.schemas id with
  | none =>
    rw [updateSchemaPropertyOutcome, if_pos (h.no_vertex hid hschema)] at hcomes
    obtain ⟨e, he, rfl, rfl⟩ | ⟨a, ha, -⟩ := hcomes
    · cases he
      exact ⟨r, .noSchema hop hschema, h⟩
    · cases ha
  | some schema =>
    have hvertex := (h.schema id schema).mpr hschema
    rw [updateSchemaPropertyOutcome, if_neg (hvertex ▸ Option.some_ne_none _)] at hcomes
    obtain ⟨e, he, -⟩ | ⟨a, ha, rfl⟩ := hcomes
    · cases he
    · cases ha
      exact ⟨_, .updateSchema hop hschema, h.setSchema hschema (hfield schema)⟩

theorem addSchema_refused {schema : NewSchema} {newId : Option Uuid} {e : RegistryError}
    (h : addSchemaOutcome crates draw g schema newId = .error e) :
    Records.Step crates r ⟨.addSchema schema newId, .error e⟩ r := by
  obtain hdefinition | ⟨definition, -, hnew⟩ := bind_eq_error.mp h
  · exact .addSchemaFails (fullSchema_error hdefinition)
  · cases newId with
    | none => cases hnew
    | some id =>
      dsimp only at hnew
      split at hnew <;> cases hnew
      exact .addSchemaTaken rfl

theorem Represents.addSchema (h : Represents g r) {schema : NewSchema} {newId : Option Uuid}
    (hfresh : Fresh draw g newId.toList) {result : Except RegistryError Returned}
    (hcomes : ComesTo g .id (addSchemaOutcome crates draw g schema newId) result g') :
    ∃ r', Records.Step crates r ⟨.addSchema schema newId, result⟩ r' ∧ Represents g' r' := by
  obtain ⟨e, he, rfl, rfl⟩ | ⟨id, houtcome, rfl⟩ := hcomes
  · exact ⟨r, addSchema_refused he, h⟩
  · obtain ⟨definition, -, hnew, heq⟩ := addSchemaOutcome_eq_ok.mp houtcome
    rw [Prod.mk.injEq] at heq
    obtain ⟨rfl, rfl⟩ := heq
    have hid := newVertexId_free hfresh hnew
    obtain ⟨hd, hne⟩ := firstDefinitionId_free hfresh
    refine ⟨_, .addSchema (h.free hid) fun i hi => ?_,
      (h.putSchema hid schema.split.1).withDefinition ?_ ?_ _ definition⟩
    · rw [Option.mem_def.mp hi]
      rfl
    · rw [Graph.vertexAt_putVertex _ hid, if_pos rfl]
      exact Option.some_ne_none _
    · rw [Graph.vertexAt_putVertex _ hid, if_neg hne, hd]

/-- A schema is found where there is a vertex, unless the vertex is another one. -/
theorem Represents.found_iff (h : Represents g r) (hid : ¬ NotSchema g id) :
    r.schemas id ≠ none ↔ g.vertexAt id ≠ none := by
  refine not_congr ⟨h.no_vertex hid, fun hnone => (h.free hnone).1⟩

theorem Represents.addView_refused (h : Represents g r) {schemaId : Uuid} {view : View}
    {viewId : Option Uuid} {e : RegistryError} (hschema : ¬ NotSchema g schemaId)
    (he : addViewOutcome crates draw g schemaId view viewId = .error e) :
    Records.Step crates r ⟨.addViewToSchema schemaId view viewId, .error e⟩ r := by
  unfold addViewOutcome at he
  split at he
  · rename_i hvertex
    cases he
    exact .addViewNoSchema (h.free hvertex).1
  · rename_i hvertex
    have hfound := (h.found_iff hschema).mpr hvertex
    cases hvalid : crates.parseJmespath view.jmespath with
    | error text =>
      rw [hvalid] at he
      cases he
      exact .addViewInvalid hfound hvalid
    | ok _ =>
      rw [hvalid] at he
      cases viewId with
      | none => cases he
      | some id =>
        simp only [Except.mapError, ok_bind] at he
        split at he <;> cases he
        exact .addViewTaken hfound hvalid rfl

theorem Represents.addView (h : Represents g r) {schemaId : Uuid} {view : View} {viewId : Option Uuid}
    (hschema : ¬ NotSchema g schemaId) (hfresh : Fresh draw g (schemaId :: viewId.toList))
    {result : Except RegistryError Returned}
    (hcomes : ComesTo g .id (addViewOutcome crates draw g schemaId view viewId) result g') :
    ∃ r', Records.Step crates r ⟨.addViewToSchema schemaId view viewId, result⟩ r' ∧
      Represents g' r' := by
  obtain ⟨e, he, rfl, rfl⟩ | ⟨id, houtcome, rfl⟩ := hcomes
  · exact ⟨r, h.addView_refused hschema he, h⟩
  · obtain ⟨hvertex, hvalid, hnew, heq⟩ := addViewOutcome_eq_ok.mp houtcome
    rw [Prod.mk.injEq] at heq
    obtain ⟨rfl, rfl⟩ := heq
    have hid : g.vertexAt (newVertexId draw viewId) = none := newVertexId_free hfresh hnew
    have hfound := (h.found_iff hschema).mpr hvertex
    refine ⟨_, .addView hfound hvalid (h.free hid) fun i hi => ?_, h.withView hvertex hid view⟩
    rw [Option.mem_def.mp hi]
    rfl

theorem Represents.updateView (h : Represents g r) {update : ViewUpdate}
    {result : Except RegistryError Returned}
    (hcomes : ComesTo g .oldView (updateViewOutcome crates g id update) result g') :
    ∃ r', Records.Step crates r ⟨.updateView id update, result⟩ r' ∧ Represents g' r' := by
  cases hview : r.views id with
  | none =>
    rw [updateViewOutcome, h.viewAt, Records.view, hview] at hcomes
    obtain ⟨e, he, rfl, rfl⟩ | ⟨_, hok, -⟩ := hcomes
    · cases he
      exact ⟨r, .noView hview, h⟩
    · cases hok
  | some entry =>
    obtain ⟨e, he, rfl, rfl⟩ | ⟨view, hok, rfl⟩ := hcomes
    · rw [updateViewOutcome, h.viewAt, Records.view, hview] at he
      cases hgiven : update.jmespath with
      | none =>
        rw [hgiven] at he
        cases he
      | some jmespath =>
        rw [hgiven] at he
        cases hparse : crates.parseJmespath jmespath with
        | ok _ =>
          simp only [hparse] at he
          cases he
        | error text =>
          simp only [hparse] at he
          cases he
          exact ⟨r, .invalidView (hview ▸ Option.some_ne_none _) hgiven hparse, h⟩
    · obtain ⟨hold, hvalid, hgraph⟩ := updateViewOutcome_eq_ok.mp hok
      rw [h.viewAt, Records.view, hview] at hold
      cases hold
      have hafter := h.setView hview (update.setAll_properties entry.2)
      rw [← hgraph] at hafter
      exact ⟨_, .updateView hview hvalid, hafter⟩

theorem Represents.addVersion (h : Represents g r) {schema : NewSchemaVersion}
    (hfresh : Fresh draw g [id]) {result : Except RegistryError Returned}
    (hcomes : ComesTo g (fun _ => .nothing) (addNewVersionOutcome crates draw g id schema) result g') :
    Represents g' r := by
  obtain ⟨-, -, -, rfl⟩ | ⟨_, hok, -⟩ := hcomes
  · exact h
  · obtain ⟨hid, -, definition, -, heq⟩ := addNewVersionOutcome_eq_ok.mp hok
    rw [(Prod.mk.inj heq).2]
    exact h.withDefinition hid (hfresh.free 0 (by omega)) _ definition

theorem Represents.stepVersion (h : Represents g r) {schema : NewSchemaVersion}
    (hid : ¬ NotSchema g id) {result : Except RegistryError Returned}
    (hcomes : ComesTo g (fun _ => .nothing) (addNewVersionOutcome crates draw g id schema) result g') :
    Records.Step crates r ⟨.addNewVersionOfSchema id schema, result⟩ r := by
  obtain ⟨e, he, rfl, -⟩ | ⟨_, hok, rfl⟩ := hcomes
  · unfold addNewVersionOutcome at he
    split at he
    · rename_i hvertex
      cases he
      exact .addVersionNoSchema (h.free hvertex).1
    · rename_i hvertex
      refine .addVersionFails ((h.found_iff hid).mpr hvertex) ?_
      obtain hgreatest | ⟨_, -, hrest⟩ := bind_eq_error.mp he
      · exact greatestVersion_error hgreatest
      · obtain hdefinition | ⟨_, -, hdone⟩ := bind_eq_error.mp hrest
        · exact .definition (fullSchema_error hdefinition)
        · cases hdone
  · exact .addVersion ((h.found_iff hid).mpr (addNewVersionOutcome_eq_ok.mp hok).1)

/-- Every call does to the records what it does to the graph. -/
theorem represents_step (g : Graph) (r : Records) (called : Called) (g' : Graph)
    (h : Represents g r) (hcalls : Calls crates broker g called g')
    (hids : ∀ id ∈ called.op.schemaIds, ¬ NotSchema g id) :
    ∃ r', Records.Step crates r called r' ∧ Represents g' r' := by
  obtain ⟨w, rfl, hfresh, w', hrun, rfl⟩ := hcalls
  obtain ⟨op, result⟩ := called
  cases op with
  | addSchema schema newId =>
    exact h.addSchema hfresh (run_returning (run_addSchema w hfresh) hrun)
  | addNewVersionOfSchema id schema =>
    have hcomes := run_returning (run_addNewVersionOfSchema w hfresh) hrun
    exact ⟨r, h.stepVersion (hids id (List.mem_singleton_self _)) hcomes, h.addVersion hfresh hcomes⟩
  | addViewToSchema schemaId view viewId =>
    exact h.addView (hids schemaId (List.mem_singleton_self _)) hfresh
      (run_returning (run_addViewToSchema w hfresh) hrun)
  | updateSchemaName id newName =>
    exact h.updateSchemaProperty (hids id (List.mem_singleton_self _)) rfl
      (fun _ => funext fun name => by cases name <;> rfl)
      (run_returning (run_updateSchemaProperty w _ id _) hrun)
  | updateSchemaTopic id newTopic =>
    exact h.updateSchemaProperty (hids id (List.mem_singleton_self _)) rfl
      (fun _ => funext fun name => by cases name <;> rfl)
      (run_returning (run_updateSchemaProperty w _ id _) hrun)
  | updateSchemaQueryAddress id newQueryAddress =>
    exact h.updateSchemaProperty (hids id (List.mem_singleton_self _)) rfl
      (fun _ => funext fun name => by cases name <;> rfl)
      (run_returning (run_updateSchemaProperty w _ id _) hrun)
  | updateSchemaType id newSchemaType =>
    exact h.updateSchemaProperty (hids id (List.mem_singleton_self _)) rfl
      (fun _ => funext fun name => by cases name <;> rfl)
      (run_returning (run_updateSchemaProperty w _ id _) hrun)
  | updateView id view => exact h.updateView (run_returning (run_updateView w id view) hrun)

/-- **The graph refines the records: every run of calls from the empty database is a run of the
records with the same results, and every read returns what the records say.** -/
theorem refines_records {ts : List (Transition Graph Called)}
    (hrun : Run (Calls crates broker) Graph.empty ts g)
    (hids : ∀ t ∈ ts, ∀ id ∈ t.label.op.schemaIds, ¬ NotSchema t.before id) :
    ∃ rs r, Run (Records.Step crates) Records.empty rs r ∧
      rs.map (·.label) = ts.map (·.label) ∧ ∀ w : World, w.graph = g → Shows broker w r := by
  obtain ⟨rs, r, hrecords, hlabels, hrepresents⟩ :=
    hrun.simulates represents_empty represents_step hids
  refine ⟨rs, r, hrecords, hlabels, ?_⟩
  rintro w rfl
  exact hrepresents.shows w

/-! ### A schema that gets another name -/

theorem calls_of_settle {α : Type} {op : Operation} {returned : α → Returned} {x : Registry α} {w : World}
    {drawn : ℕ} {a : α} (hcall : op.call crates = Operation.returning returned x)
    (hfresh : Fresh w.supply w.graph op.given) (hx : run broker x w = w.settle drawn (.ok (a, g'))) :
    Calls crates broker w.graph ⟨op, .ok (returned a)⟩ g' := by
  refine ⟨w, rfl, hfresh, { w with graph := g', supply := fun n => w.supply (n + drawn) }, ?_, rfl⟩
  dsimp only
  rw [hcall, Operation.returning, run_bind_ok hx]
  rfl

theorem refines_records_renamed : ∃ ts g, Run (Calls sampleCrates sampleBroker) Graph.empty ts g ∧
    ts.map (·.label) = [⟨.addSchema sampleNewSchema (some 1), .ok (.id 1)⟩,
      ⟨.updateSchemaName 1 "bills", .ok .nothing⟩] ∧
    ∃ rs r, Run (Records.Step sampleCrates) Records.empty rs r ∧
      rs.map (·.label) = ts.map (·.label) ∧ ∀ w : World, w.graph = g → Shows sampleBroker w r := by
  have hfresh : Fresh (sampleWorld .empty 2 4).supply Graph.empty [1] :=
    ⟨by simp [sampleWorld], by decide, by decide⟩
  have hadd : run sampleBroker (SchemaRegistry.addSchema sampleCrates sampleNewSchema (some 1))
      (sampleWorld .empty 2 4) = (sampleWorld .empty 2 4).settle 1 (.ok (1, sampleGraph)) :=
    run_addSchema (sampleWorld .empty 2 4) hfresh
  have hadds : Calls sampleCrates sampleBroker Graph.empty
      ⟨.addSchema sampleNewSchema (some 1), .ok (.id 1)⟩ sampleGraph :=
    calls_of_settle rfl hfresh hadd
  have hschema : HasType sampleGraph 1 .schema :=
    ⟨Graph.propsOf sampleNewSchema.split.1.intoProperties, by rw [vertexAt_sampleGraph]; rfl⟩
  have hfresh' : Fresh (sampleWorld sampleGraph 5 6).supply sampleGraph [1] := by
    refine ⟨fun n _ => ?_, by decide, by decide⟩
    rw [vertexAt_sampleGraph]
    cases n <;> rfl
  have hrename : run sampleBroker (updateSchemaName 1 "bills") (sampleWorld sampleGraph 5 6) =
      (sampleWorld sampleGraph 5 6).settle 0
        (.ok ((), sampleGraph.setVertexProperty 1 .schemaName (.string "bills"))) :=
    (run_updateSchemaProperty (sampleWorld sampleGraph 5 6) _ 1 _).trans
      (congrArg _ (if_neg hschema.ne_none))
  have hcall : Operation.call sampleCrates (.updateSchemaName 1 "bills") =
    Operation.returning (fun _ => .nothing) (updateSchemaName 1 "bills") := rfl
  have hrenames : Calls sampleCrates sampleBroker sampleGraph
      ⟨.updateSchemaName 1 "bills", .ok .nothing⟩ _ := calls_of_settle hcall hfresh' hrename
  have hrun := (Run.start.step hadds).step hrenames
  refine ⟨_, _, hrun, rfl, refines_records hrun ?_⟩
  simp only [List.nil_append, List.cons_append, List.forall_mem_cons]
  refine ⟨by simp [Operation.schemaIds], ?_, List.forall_mem_nil _⟩
  intro id hid
  rw [List.mem_singleton.mp hid]
  exact fun hnot => hnot.not_schema hschema

end Calls
end CommonDataLayer.SchemaRegistry
