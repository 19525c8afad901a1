import CommonDataLayer.SchemaRegistry.VersionHistory
import CommonDataLayer.SchemaRegistry.WellTyped

/-! # What the vertices and the edges hold

Every vertex holds the properties of a schema, of a definition or of a view and no others, and every
edge to a definition its version, as long as no operation names another vertex as a schema.

* `fromProperties_propsOf`: the three encodings of the vertices are read back.
* `Encoded`: all of the graph is encoded so. `encoded_run`: in every run from the empty database.
-/
namespace CommonDataLayer.SchemaRegistry
open Interaction PropertyGraph TransitionSystem
set_option autoImplicit false

/-! ## Reading back -/

theorem SchemaType.ofValue_text (t : SchemaType) : SchemaType.ofValue (.string t.text) = some t := by
  cases t <;> rfl

theorem Schema.fromProperties_propsOf (schema : Schema) :
    Schema.fromProperties (Graph.propsOf schema.intoProperties) = some schema := by
  have htype : Graph.propsOf schema.intoProperties .schemaType =
    some (.string schema.schemaType.text) := rfl
  simp only [Schema.fromProperties, htype, Option.bind_some, Option.bind_eq_bind,
    SchemaType.ofValue_text]
  rfl

theorem Definition.fromProperties_propsOf (definition : Definition) :
    Definition.fromProperties (Graph.propsOf definition.intoProperties) = some definition := rfl

theorem View.fromProperties_propsOf (view : View) :
    View.fromProperties (Graph.propsOf view.intoProperties) = some view := rfl

/-! ## Encoded vertices and edges -/

inductive EncodedVertex : Vertex → Prop where
  | schema (schema : Schema) : EncodedVertex ⟨.schema, Graph.propsOf schema.intoProperties⟩
  | definition (definition : Definition) :
    EncodedVertex ⟨.definition, Graph.propsOf definition.intoProperties⟩
  | view (view : View) : EncodedVertex ⟨.view, Graph.propsOf view.intoProperties⟩

/-- A vertex as it is stored. -/
def VertexData.stored (data : VertexData) : Vertex := ⟨data.t, Graph.propsOf data.properties⟩

/-- A vertex has the properties of its type. -/
theorem EncodedVertex.own {vertex : Vertex} (h : EncodedVertex vertex) (name : PropName) :
    vertex.props name ≠ none ↔ name ∈ vertex.t.properties := by
  cases h with
  | schema schema => exact Graph.propsOf_ne_none
  | definition definition => exact Graph.propsOf_ne_none
  | view view => exact Graph.propsOf_ne_none

theorem EncodedVertex.eq_schema {vertex : Vertex} (h : EncodedVertex vertex) (ht : vertex.t = .schema) :
    ∃ schema : Schema, vertex = schema.vertex.stored := by
  cases h with
  | schema schema => exact ⟨schema, rfl⟩
  | definition definition => cases ht
  | view view => cases ht

theorem EncodedVertex.eq_definition {vertex : Vertex} (h : EncodedVertex vertex)
    (ht : vertex.t = .definition) : ∃ definition : Definition, vertex = definition.vertex.stored := by
  cases h with
  | schema schema => cases ht
  | definition definition => exact ⟨definition, rfl⟩
  | view view => cases ht

theorem EncodedVertex.eq_view {vertex : Vertex} (h : EncodedVertex vertex) (ht : vertex.t = .view) :
    ∃ view : View, vertex = view.vertex.stored := by
  cases h with
  | schema schema => cases ht
  | definition definition => cases ht
  | view view => exact ⟨view, rfl⟩

inductive EncodedEdge (crates : Crates) : EdgeKey → Props PropName Value → Prop where
  | definition {schemaId definitionId : Uuid} {version : Version}
    (readsBack : crates.parseVersion (crates.showVersion version) = .ok version) :
    EncodedEdge crates (schemaDefinitionKey schemaId definitionId)
      (Graph.propsOf (versionProperties crates version))
  | view {schemaId viewId : Uuid} :
    EncodedEdge crates (schemaViewKey schemaId viewId) (Graph.propsOf [])

structure Encoded (crates : Crates) (g : Graph) : Prop where
  vertex (id : Uuid) (vertex : Vertex) : g.vertexAt id = some vertex → EncodedVertex vertex
  edge (key : EdgeKey) (props : Props PropName Value) :
    g.edgeAt key = some props → EncodedEdge crates key props

section Steps
variable {crates : Crates} {g : Graph} {draw : ℕ → Uuid} {id d : Uuid}

theorem encoded_empty : Encoded crates .empty where
  vertex id vertex h := by simp at h
  edge key props h := by simp at h

theorem Encoded.withDefinition (h : Encoded crates g) (hid : g.vertexAt id ≠ none)
    (hd : g.vertexAt d = none) {version : Version}
    (hversion : crates.parseVersion (crates.showVersion version) = .ok version)
    (definition : Definition) :
    Encoded crates (withDefinition crates g id d version definition) where
  vertex i vertex hi := by
    rw [vertexAt_withDefinition hd] at hi
    split at hi
    · cases hi
      exact .definition definition
    · exact h.vertex i vertex hi
  edge key props hkey := by
    rw [edgeAt_withDefinition hid hd] at hkey
    split at hkey
    · rename_i heq
      cases hkey
      rw [← heq]
      exact .definition hversion
    · exact h.edge key props hkey

theorem Encoded.putVertex (h : Encoded crates g) (hid : g.vertexAt id = none) {t : VertexType}
    {values : List (PropName × Value)} (hvertex : EncodedVertex ⟨t, Graph.propsOf values⟩) :
    Encoded crates (g.putVertex id t values) where
  vertex i vertex hi := by
    rw [Graph.vertexAt_putVertex _ hid] at hi
    split at hi
    · cases hi
      exact hvertex
    · exact h.vertex i vertex hi
  edge key props hkey := h.edge key props (by rwa [Graph.edgeAt_putVertex] at hkey)

theorem Encoded.withSchema (h : Encoded crates g) (hid : g.vertexAt id = none)
    (hd : g.vertexAt d = none) (hne : id ≠ d)
    (hversion : crates.parseVersion (crates.showVersion (.new 1 0 0)) = .ok (.new 1 0 0))
    (schema : Schema) (definition : Definition) :
    Encoded crates (withSchema crates g id d schema definition) := by
  have hput := Graph.vertexAt_putVertex g hid
  refine (h.putVertex hid (.schema schema)).withDefinition ?_ ?_ hversion definition
  · rw [hput, if_pos rfl]
    exact Option.some_ne_none _
  · rw [hput, if_neg hne, hd]

theorem Encoded.withView (h : Encoded crates g) (hid : g.vertexAt id ≠ none)
    (hd : g.vertexAt d = none) (view : View) : Encoded crates (withView g id d view) where
  vertex i vertex hi := by
    rw [vertexAt_withView hd] at hi
    split at hi
    · cases hi
      exact .view view
    · exact h.vertex i vertex hi
  edge key props hkey := by
    rw [edgeAt_withView hid hd] at hkey
    split at hkey
    · rename_i heq
      cases hkey
      rw [← heq]
      exact .view
    · exact h.edge key props hkey

/-! ## Updates -/

theorem Encoded.setVertexProperties (h : Encoded crates g) {t : VertexType}
    {values : List (PropName × Value)} (ht : HasType g id t)
    (hset : ∀ props, EncodedVertex ⟨t, props⟩ → EncodedVertex ⟨t, props.setAll values⟩) :
    Encoded crates (g.setVertexProperties id values) where
  vertex i vertex hi := by
    rw [Graph.vertexAt_setVertexProperties] at hi
    split at hi
    · rename_i heq
      subst heq
      obtain ⟨props, hprops⟩ := ht
      rw [hprops, Option.map_some, Option.some.injEq] at hi
      subst hi
      exact hset props (h.vertex id _ hprops)
    · exact h.vertex i vertex hi
  edge key props hkey := h.edge key props (by rwa [Graph.edgeAt_setVertexProperties] at hkey)

/-- The values that the four updates of a schema set. -/
inductive SchemaUpdate : PropName → String → Prop where
  | name (newName : String) : SchemaUpdate .schemaName newName
  | topic (newTopic : String) : SchemaUpdate .schemaTopicName newTopic
  | queryAddress (newQueryAddress : String) : SchemaUpdate .schemaQueryAddress newQueryAddress
  | type (newSchemaType : SchemaType) : SchemaUpdate .schemaType newSchemaType.text

theorem SchemaUpdate.encoded {name : PropName} {value : String} (h : SchemaUpdate name value)
    (props : Props PropName Value) (hprops : EncodedVertex ⟨.schema, props⟩) :
    EncodedVertex ⟨.schema, props.setAll [(name, .string value)]⟩ := by
  generalize hvertex : (⟨.schema, props⟩ : Vertex) = vertex at hprops
  cases hprops with
  | definition definition => cases hvertex
  | view view => cases hvertex
  | schema schema =>
    cases hvertex
    have hupdated : ∃ updated : Schema, (Graph.propsOf schema.intoProperties).setAll
        [(name, .string value)] = Graph.propsOf updated.intoProperties := by
      cases h with
      | name =>
        refine ⟨{ schema with name := value }, funext fun name => ?_⟩
        cases name <;> rfl
      | topic =>
        refine ⟨{ schema with kafkaTopic := value }, funext fun name => ?_⟩
        cases name <;> rfl
      | queryAddress =>
        refine ⟨{ schema with queryAddress := value }, funext fun name => ?_⟩
        cases name <;> rfl
      | type newSchemaType =>
        refine ⟨{ schema with schemaType := newSchemaType }, funext fun name => ?_⟩
        cases name <;> rfl
    obtain ⟨updated, hupdated⟩ := hupdated
    rw [hupdated]
    exact .schema updated

def ViewUpdate.applied (update : ViewUpdate) (view : View) : View :=
  { name := update.name.getD view.name, jmespath := update.jmespath.getD view.jmespath }

theorem ViewUpdate.setAll_properties (update : ViewUpdate) (view : View) :
    view.vertex.stored.props.setAll update.properties = (update.applied view).vertex.stored.props := by
  obtain ⟨name, jmespath⟩ := update
  funext property
  cases name <;> cases jmespath <;> cases property <;> rfl

theorem ViewUpdate.encoded (update : ViewUpdate) (props : Props PropName Value)
    (hprops : EncodedVertex ⟨.view, props⟩) :
    EncodedVertex ⟨.view, props.setAll update.properties⟩ := by
  generalize hvertex : (⟨.view, props⟩ : Vertex) = vertex at hprops
  cases hprops with
  | schema schema => cases hvertex
  | definition definition => cases hvertex
  | view view =>
    cases hvertex
    have hupdated : (Graph.propsOf view.intoProperties).setAll update.properties =
      (update.applied view).vertex.stored.props := update.setAll_properties view
    rw [hupdated]
    exact .view _

theorem Encoded.updateSchemaProperty (h : Encoded crates g) {name : PropName} {value : String}
    (hupdate : SchemaUpdate name value) (hid : ¬ NotSchema g id) :
    Encoded crates ((((updateSchemaPropertyOutcome g name id value).map (·.2)).toOption).getD g) := by
  cases houtcome : updateSchemaPropertyOutcome g name id value with
  | error e => exact h
  | ok r =>
    obtain ⟨hvertex, rfl⟩ := updateSchemaPropertyOutcome_eq_ok.mp houtcome
    have hschema := (schema_or_not hvertex).resolve_right hid
    have hset : Encoded crates (g.setVertexProperties id [(name, .string value)]) :=
      h.setVertexProperties hschema hupdate.encoded
    exact hset

/-! ## Runs -/

theorem Encoded.graphAfter (h : Encoded crates g) {op : Operation} (hfresh : Fresh draw g op.given)
    (hids : ∀ id ∈ op.schemaIds, ¬ NotSchema g id) (hversion : op.ReadsBack crates) :
    Encoded crates (graphAfter crates draw g op) := by
  unfold SchemaRegistry.graphAfter
  cases op with
  | addSchema schema newId =>
    show Encoded crates ((((addSchemaOutcome crates draw g schema newId).map (·.2)).toOption).getD g)
    cases houtcome : addSchemaOutcome crates draw g schema newId with
    | error e => exact h
    | ok r =>
      obtain ⟨definition, -, hnew, rfl⟩ := addSchemaOutcome_eq_ok.mp houtcome
      obtain ⟨hd, hne⟩ := firstDefinitionId_free hfresh
      exact h.withSchema (newVertexId_free hfresh hnew) hd hne hversion _ _
  | addNewVersionOfSchema id schema =>
    show Encoded crates ((((addNewVersionOutcome crates draw g id schema).map (·.2)).toOption).getD g)
    cases houtcome : addNewVersionOutcome crates draw g id schema with
    | error e => exact h
    | ok r =>
      obtain ⟨hid, -, definition, -, rfl⟩ := addNewVersionOutcome_eq_ok.mp houtcome
      exact h.withDefinition hid (hfresh.free 0 (by omega)) hversion definition
  | addViewToSchema schemaId view viewId =>
    show Encoded crates ((((addViewOutcome crates draw g schemaId view viewId).map
      (·.2)).toOption).getD g)
    cases houtcome : addViewOutcome crates draw g schemaId view viewId with
    | error e => exact h
    | ok r =>
      obtain ⟨hid, -, hnew, rfl⟩ := addViewOutcome_eq_ok.mp houtcome
      exact h.withView hid (newVertexId_free hfresh hnew) view
  | updateSchemaName id newName =>
    exact h.updateSchemaProperty (.name newName) (hids id (List.mem_singleton_self id))
  | updateSchemaTopic id newTopic =>
    exact h.updateSchemaProperty (.topic newTopic) (hids id (List.mem_singleton_self id))
  | updateSchemaQueryAddress id newQueryAddress =>
    exact h.updateSchemaProperty (.queryAddress newQueryAddress)
      (hids id (List.mem_singleton_self id))
  | updateSchemaType id newSchemaType =>
    exact h.updateSchemaProperty (.type newSchemaType) (hids id (List.mem_singleton_self id))
  | updateView id view =>
    show Encoded crates ((((updateViewOutcome crates g id view).map (·.2)).toOption).getD g)
    cases houtcome : updateViewOutcome crates g id view with
    | error e => exact h
    | ok r =>
      obtain ⟨hview, -, hgraph⟩ := updateViewOutcome_eq_ok.mp houtcome
      have hafter := h.setVertexProperties (hasType_of_viewAt hview) view.encoded
      rw [← hgraph] at hafter
      exact hafter

theorem encoded_run {broker : Broker} {ts : List (Transition Graph Operation)}
    (hrun : Run (Performs crates broker) Graph.empty ts g)
    (hids : ∀ t ∈ ts, ∀ id ∈ t.label.schemaIds, ¬ NotSchema t.before id)
    (hversions : ∀ t ∈ ts, t.label.ReadsBack crates) : Encoded crates g := by
  have hstep : ∀ g op g', Encoded crates g → Performs crates broker g op g' →
      ((∀ id ∈ op.schemaIds, ¬ NotSchema g id) ∧ op.ReadsBack crates) → Encoded crates g' := by
    rintro g op g' h hperforms ⟨hids, hversion⟩
    obtain ⟨w, -, hfresh, rfl⟩ := performs_iff.mp hperforms
    exact h.graphAfter hfresh hids hversion
  exact (hrun.invariant encoded_empty hstep fun t ht => ⟨hids t ht, hversions t ht⟩).1

end Steps
end CommonDataLayer.SchemaRegistry
