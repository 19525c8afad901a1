import CommonDataLayer.SchemaRegistry.Encoding

/-! # Export and import

`export_all` reads all vertices and edges, by their types; `import_all` puts them into a database
that has no schemas.

* `Dumps`: an export holds the contents of a graph, in any order.
* `Encoded.exported`: what `export_all` returns for an encoded graph.
* `run_importAll`: the import of such an export gives the graph.
* `export_import`: so a database is reproduced, with all its reads.
-/
namespace CommonDataLayer.SchemaRegistry
open Interaction PropertyGraph TransitionSystem Std
set_option autoImplicit false

/-! ## Reads -/

section Reads
variable {broker : Broker} {crates : Crates} {α β ε : Type}

/-- The result depends on the graph, and the world stays as it is. -/
def IsRead (broker : Broker) (x : Fallible ε α) : Prop :=
  ∃ r : Graph → Except ε α, ∀ w, run broker x w = (r w.graph, w)

theorem isRead_ret (r : Except ε α) : IsRead broker (ExceptT.mk (.ret r)) := ⟨fun _ => r, fun _ => rfl⟩

theorem IsRead.bind {x : Fallible ε α} {f : α → Fallible ε β} (hx : IsRead broker x)
    (hf : ∀ a, IsRead broker (f a)) : IsRead broker (x >>= f) := by
  obtain ⟨r, hr⟩ := hx
  choose k hk using hf
  exact ⟨fun g => r g >>= fun a => k a g, fun w => run_bind_read w (hr w) fun a => hk a w⟩

theorem IsRead.congr {x : Fallible ε α} (h : IsRead broker x) {w w' : World}
    (hgraph : w'.graph = w.graph) : (run broker x w').1 = (run broker x w).1 := by
  obtain ⟨r, hr⟩ := h
  rw [hr, hr, hgraph]

theorem isRead_connect : IsRead broker connect := ⟨fun _ => .ok (), fun _ => rfl⟩

theorem isRead_getVertexProperties (id : Uuid) (name : PropName) :
    IsRead broker (getVertexProperties id name) :=
  ⟨fun g => .ok ((g.vertexAt id).bind (·.props name)), fun _ => rfl⟩

theorem isRead_getSchema (id : Uuid) : IsRead broker (getSchema id) := by
  have hget : IsRead broker (getAllVertexProperties id) := ⟨fun g => .ok (g.vertexAt id), fun _ => rfl⟩
  refine isRead_connect.bind fun _ => hget.bind fun vertex => ?_
  cases vertex with
  | none => exact isRead_ret _
  | some vertex =>
    dsimp only
    cases Schema.fromProperties vertex.props <;> exact isRead_ret _

theorem isRead_getSchemaProperty (name : PropName) (ofValue : Value → Option α) (id : Uuid) :
    IsRead broker (getSchemaProperty name ofValue id) := by
  refine isRead_connect.bind fun _ => (isRead_getVertexProperties id name).bind fun value => ?_
  cases value with
  | none => exact isRead_ret _
  | some value =>
    dsimp only
    cases ofValue value <;> exact isRead_ret _

theorem isRead_getAllSchemas : IsRead broker getAllSchemas := by
  have hget : IsRead broker (getAllVertexPropertiesOf .schema) :=
    ⟨fun g => .ok (g.verticesOf .schema), fun _ => rfl⟩
  exact isRead_connect.bind fun _ => hget.bind fun _ => isRead_ret _

theorem isRead_getAllSchemaNames : IsRead broker getAllSchemaNames := by
  have hget : IsRead broker (getVertexPropertiesOf .schema .schemaName) :=
    ⟨fun g => .ok ((g.verticesOf .schema).filterMap fun entry =>
      (entry.2.props .schemaName).map (entry.1, ·)), fun _ => rfl⟩
  exact isRead_connect.bind fun _ => hget.bind fun _ => isRead_ret _

theorem isRead_getAllViewsOfSchema (id : Uuid) : IsRead broker (getAllViewsOfSchema id) := by
  have hensure : IsRead broker (ensureSchemaExists id) :=
    ⟨fun g => if g.vertexAt id = none then .error (.noSchemaWithId id) else .ok (),
      fun w => run_ensureSchemaExists w id⟩
  have hget : IsRead broker (getOutboundVertexProperties id .schemaView) :=
    ⟨fun g => .ok ((g.outbound id .schemaView).filterMap fun edge =>
      (g.vertexAt edge.1.inboundId).map (edge.1.inboundId, ·)), fun _ => rfl⟩
  exact isRead_connect.bind fun _ => hensure.bind fun _ => hget.bind fun _ => isRead_ret _

/-- All reads of the registry return the same in two worlds. -/
structure SameReads (crates : Crates) (broker : Broker) (w w' : World) : Prop where
  schema (id : Uuid) : (run broker (getSchema id) w').1 = (run broker (getSchema id) w).1
  schemaTopic (id : Uuid) :
    (run broker (getSchemaTopic id) w').1 = (run broker (getSchemaTopic id) w).1
  schemaQueryAddress (id : Uuid) :
    (run broker (getSchemaQueryAddress id) w').1 = (run broker (getSchemaQueryAddress id) w).1
  schemaType (id : Uuid) : (run broker (getSchemaType id) w').1 = (run broker (getSchemaType id) w).1
  schemaVersions (id : Uuid) :
    (run broker (getSchemaVersions crates id) w').1 = (run broker (getSchemaVersions crates id) w).1
  schemaDefinition (id : VersionedUuid) : (run broker (getSchemaDefinition crates id) w').1 =
    (run broker (getSchemaDefinition crates id) w).1
  view (id : Uuid) : (run broker (getView id) w').1 = (run broker (getView id) w).1
  allSchemas : (run broker getAllSchemas w').1 = (run broker getAllSchemas w).1
  allSchemaNames : (run broker getAllSchemaNames w').1 = (run broker getAllSchemaNames w).1
  allViewsOfSchema (id : Uuid) :
    (run broker (getAllViewsOfSchema id) w').1 = (run broker (getAllViewsOfSchema id) w).1

theorem sameReads_of_graph {w w' : World} (h : w'.graph = w.graph) :
    SameReads crates broker w w' where
  schema id := (isRead_getSchema id).congr h
  schemaTopic id := (isRead_getSchemaProperty _ _ id).congr h
  schemaQueryAddress id := (isRead_getSchemaProperty _ _ id).congr h
  schemaType id := (isRead_getSchemaProperty _ _ id).congr h
  schemaVersions id := by rw [run_getSchemaVersions, run_getSchemaVersions, h]
  schemaDefinition id := by rw [run_getSchemaDefinition, run_getSchemaDefinition, h]
  view id := by rw [run_getView, run_getView, h]
  allSchemas := isRead_getAllSchemas.congr h
  allSchemaNames := isRead_getAllSchemaNames.congr h
  allViewsOfSchema id := (isRead_getAllViewsOfSchema id).congr h

end Reads

/-! ## Export -/

/-- The contents of a graph, in any order. -/
structure Dumps (crates : Crates) (g : Graph) (dump : DbExport) : Prop where
  schemas : (dump.schemas.map fun entry => (entry.1, entry.2.vertex.stored)).Perm
    (g.verticesOf .schema)
  definitions : (dump.definitions.map fun entry => (entry.1, entry.2.vertex.stored)).Perm
    (g.verticesOf .definition)
  views : (dump.views.map fun entry => (entry.1, entry.2.vertex.stored)).Perm (g.verticesOf .view)
  schemaDefinitions : (dump.schemaDefinitions.map fun edge =>
    (schemaDefinitionKey edge.schemaId edge.definitionId,
      Graph.propsOf (versionProperties crates edge.version))).Perm (g.edgesOf .schemaDefinition)
  schemaViews : (dump.schemaViews.map fun edge =>
    (schemaViewKey edge.schemaId edge.viewId, Graph.propsOf [])).Perm (g.edgesOf .schemaView)

/-- The same export, with its lists in another order. -/
structure DbExport.Same (dump dump' : DbExport) : Prop where
  schemas : dump.schemas.Perm dump'.schemas
  definitions : dump.definitions.Perm dump'.definitions
  views : dump.views.Perm dump'.views
  schemaDefinitions : dump.schemaDefinitions.Perm dump'.schemaDefinitions
  schemaViews : dump.schemaViews.Perm dump'.schemaViews

section Export
variable {broker : Broker} {crates : Crates} {g : Graph} {dump dump' : DbExport} {α β ε : Type}

theorem DbExport.Same.refl (dump : DbExport) : dump.Same dump := ⟨.rfl, .rfl, .rfl, .rfl, .rfl⟩

theorem Dumps.same (h : Dumps crates g dump) (hsame : dump.Same dump') : Dumps crates g dump' where
  schemas := (hsame.schemas.symm.map _).trans h.schemas
  definitions := (hsame.definitions.symm.map _).trans h.definitions
  views := (hsame.views.symm.map _).trans h.views
  schemaDefinitions := (hsame.schemaDefinitions.symm.map _).trans h.schemaDefinitions
  schemaViews := (hsame.schemaViews.symm.map _).trans h.schemaViews

/-- What `export_all` reads from a graph. -/
def exported (crates : Crates) (g : Graph) : Except RegistryError DbExport := do
  let definitions ← (g.verticesOf .definition).mapM
    (decodeVertex Definition.fromProperties .malformedDefinition)
  let schemas ← (g.verticesOf .schema).mapM (decodeVertex Schema.fromProperties .malformedSchema)
  let views ← (g.verticesOf .view).mapM (decodeVertex View.fromProperties .malformedView)
  let schemaDefinitions ← (g.edgesOf .schemaDefinition).mapM (decodeDefinitionEdge crates)
  return { schemas := schemas, definitions := definitions, views := views,
           schemaDefinitions := schemaDefinitions,
           schemaViews := (g.edgesOf .schemaView).map fun edge =>
             SchemaViewEdge.fromProperties edge.1 }

theorem run_exportAll (w : World) :
    run broker (exportAll crates) w = (exported crates w.graph, w) := by
  have hvertices (t : VertexType) : run broker (getAllVertexPropertiesOf t) w =
    (.ok (w.graph.verticesOf t), w) := rfl
  have hedges (t : EdgeType) : run broker (getAllEdgeProperties t) w =
    (.ok (w.graph.edgesOf t), w) := rfl
  unfold exportAll
  rw [run_bind_ok (run_connect w), run_bind_ok (hvertices .definition),
    run_bind_ok (hvertices .schema), run_bind_ok (hvertices .view),
    run_bind_ok (hedges .schemaDefinition), run_bind_ok (hedges .schemaView)]
  exact run_bind_read w (run_mk_ret w _) fun definitions =>
    run_bind_read w (run_mk_ret w _) fun schemas => run_bind_read w (run_mk_ret w _) fun views =>
    run_bind_read w (run_mk_ret w _) fun schemaDefinitions => rfl

/-- Reading back a list that was encoded. -/
theorem mapM_eq_ok {f : α → Except ε β} {encode : β → α} {l : List α}
    (h : ∀ a ∈ l, ∃ b, f a = .ok b ∧ encode b = a) :
    ∃ found, l.mapM f = .ok found ∧ found.map encode = l := by
  simp only [mapM_eq_ok_iff]
  induction l with
  | nil => exact ⟨[], .nil, rfl⟩
  | cons a l ih =>
    rw [List.forall_mem_cons] at h
    obtain ⟨⟨b, hb, rfl⟩, hl⟩ := h
    obtain ⟨found, hfound, hmap⟩ := ih hl
    exact ⟨b :: found, .cons hb hfound, congrArg _ hmap⟩

theorem mapM_map_eq_ok {γ : Type} {f : α → Except ε β} {encode : γ → α} {decode : γ → β}
    (h : ∀ c, f (encode c) = .ok (decode c)) (l : List γ) :
    (l.map encode).mapM f = .ok (l.map decode) := by
  rw [mapM_eq_ok_iff, List.forall₂_map_left_iff, List.forall₂_map_right_iff, List.forall₂_same]
  exact fun c _ => h c

/-- The vertices of a type, when all of them are encoded. -/
theorem decodeVertices {fromProperties : Props PropName Value → Option α}
    (malformed : Uuid → MalformedError) (data : α → VertexData) (t : VertexType)
    (hdata : ∀ a, fromProperties (data a).stored.props = some a)
    (hencoded : ∀ id vertex, g.vertexAt id = some vertex → vertex.t = t →
      ∃ a, vertex = (data a).stored) :
    ∃ found, (g.verticesOf t).mapM (decodeVertex fromProperties malformed) = .ok found ∧
      found.map (fun entry => (entry.1, (data entry.2).stored)) = g.verticesOf t := by
  refine mapM_eq_ok fun entry hentry => ?_
  obtain ⟨id, vertex⟩ := entry
  obtain ⟨hid, ht⟩ := Graph.mem_verticesOf.mp hentry
  obtain ⟨a, rfl⟩ := hencoded id vertex hid ht
  refine ⟨(id, a), ?_, rfl⟩
  rw [decodeVertex, hdata]

theorem decodeDefinitionEdges (h : Encoded crates g) :
    ∃ found, (g.edgesOf .schemaDefinition).mapM (decodeDefinitionEdge crates) = .ok found ∧
      found.map (fun edge => (schemaDefinitionKey edge.schemaId edge.definitionId,
        Graph.propsOf (versionProperties crates edge.version))) = g.edgesOf .schemaDefinition := by
  refine mapM_eq_ok fun edge hedge => ?_
  obtain ⟨key, props⟩ := edge
  obtain ⟨hprops, ht⟩ := Graph.mem_edgesOf.mp hedge
  cases h.edge key props hprops with
  | @definition schemaId definitionId version hversion =>
    have hread : SchemaDefinitionEdge.fromProperties crates (schemaDefinitionKey schemaId definitionId)
        (Graph.propsOf (versionProperties crates version)) =
        some ⟨schemaId, definitionId, version⟩ := by
      have hvalue := versionOfValue_show hversion
      have hget : Graph.propsOf (versionProperties crates version) .version =
        some (.string (crates.showVersion version)) := rfl
      simp only [SchemaDefinitionEdge.fromProperties, hget, Option.bind_eq_bind, Option.bind_some, hvalue]
      rfl
    refine ⟨⟨schemaId, definitionId, version⟩, ?_, rfl⟩
    rw [decodeDefinitionEdge, hread]
  | view => cases ht

theorem Encoded.exported (h : Encoded crates g) :
    ∃ dump, exported crates g = .ok dump ∧ Dumps crates g dump := by
  obtain ⟨definitions, hdefinitions, hd⟩ := decodeVertices MalformedError.malformedDefinition
    Definition.vertex .definition Definition.fromProperties_propsOf fun id vertex hid =>
      (h.vertex id vertex hid).eq_definition
  obtain ⟨schemas, hschemas, hs⟩ := decodeVertices MalformedError.malformedSchema
    Schema.vertex .schema Schema.fromProperties_propsOf fun id vertex hid =>
      (h.vertex id vertex hid).eq_schema
  obtain ⟨views, hviews, hv⟩ := decodeVertices MalformedError.malformedView
    View.vertex .view View.fromProperties_propsOf fun id vertex hid => (h.vertex id vertex hid).eq_view
  obtain ⟨edges, hedges, he⟩ := decodeDefinitionEdges h
  have hviewEdges : ((g.edgesOf .schemaView).map fun edge => SchemaViewEdge.fromProperties edge.1).map
      (fun edge => (schemaViewKey edge.schemaId edge.viewId, Graph.propsOf [])) =
      g.edgesOf .schemaView := by
    rw [List.map_map]
    refine (List.map_congr_left fun edge hedge => ?_).trans (List.map_id _)
    obtain ⟨key, props⟩ := edge
    obtain ⟨hprops, ht⟩ := Graph.mem_edgesOf.mp hedge
    cases h.edge key props hprops with
    | definition readsBack => cases ht
    | view => rfl
  refine ⟨⟨schemas, definitions, views, edges, _⟩, ?_, .of_eq hs, .of_eq hd, .of_eq hv, .of_eq he,
    .of_eq hviewEdges⟩
  rw [SchemaRegistry.exported, hdefinitions, hschemas, hviews, hedges]
  rfl

end Export

/-! ## Import -/

/-- The vertices of an export. -/
def DbExport.vertices (dump : DbExport) : List (Uuid × VertexData) :=
  dump.schemas.map (fun entry => (entry.1, entry.2.vertex)) ++
    (dump.definitions.map (fun entry => (entry.1, entry.2.vertex)) ++
      dump.views.map (fun entry => (entry.1, entry.2.vertex)))

def DbExport.edges (crates : Crates) (dump : DbExport) : List (EdgeKey × List (PropName × Value)) :=
  dump.schemaDefinitions.map (fun edge =>
      (schemaDefinitionKey edge.schemaId edge.definitionId, versionProperties crates edge.version)) ++
    dump.schemaViews.map fun edge => (schemaViewKey edge.schemaId edge.viewId, [])

section Import
variable {broker : Broker} {crates : Crates} {g : Graph} {dump : DbExport}

theorem createVertices_append (first second : List (Uuid × VertexData)) :
    createVertices (first ++ second) =
      (do createVertices first; createVertices second : Registry Unit) := by
  induction first with
  | nil => rfl
  | cons entry first ih =>
    rw [List.cons_append, createVertices, createVertices, ih, bind_assoc]

theorem createEdges_append (first second : List (EdgeKey × List (PropName × Value))) :
    createEdges (first ++ second) = (do createEdges first; createEdges second : Registry Unit) := by
  induction first with
  | nil => rfl
  | cons entry first ih =>
    rw [List.cons_append, createEdges, createEdges, ih, bind_assoc]

/-- The entry that a vertex is in the library. -/
def VertexData.entry (vertex : Uuid × VertexData) : Uuid × VertexType × List (PropName × Value) :=
  (vertex.1, vertex.2.t, vertex.2.properties)

theorem run_createVertices (w : World) {vertices : List (Uuid × VertexData)}
    (hnodup : (vertices.map (·.1)).Nodup)
    (hfree : ∀ vertex ∈ vertices, w.graph.vertexAt vertex.1 = none) :
    run broker (createVertices vertices) w =
      (.ok (), { w with graph := w.graph.putVertices (vertices.map VertexData.entry) }) := by
  induction vertices generalizing w with
  | nil => rfl
  | cons first vertices ih =>
    obtain ⟨id, data⟩ := first
    rw [List.map_cons, List.nodup_cons] at hnodup
    rw [List.forall_mem_cons] at hfree
    have hcreate : run broker (createVertexWithProperties data (some id)) w = _ :=
      run_createVertexWithProperties_some w data id
    rw [if_pos hfree.1] at hcreate
    rw [createVertices, run_bind_ok hcreate, ih _ hnodup.2]
    · rfl
    · intro vertex hvertex
      have hmem : vertex.1 ∈ vertices.map (·.1) := List.mem_map_of_mem hvertex
      have hne : id ≠ vertex.1 := fun heq => hnodup.1 (heq ▸ hmem)
      rw [Graph.vertexAt_putVertex _ hfree.1, if_neg hne]
      exact hfree.2 vertex hvertex

theorem run_createEdges (w : World) (edges : List (EdgeKey × List (PropName × Value))) :
    run broker (createEdges edges) w = (.ok (), { w with graph := w.graph.putEdges edges }) := by
  induction edges generalizing w with
  | nil => rfl
  | cons edge edges ih =>
    rw [createEdges, run_bind_ok (run_setEdgeProperties w edge.1 edge.2), ih]
    rfl

/-- The vertices of a graph, with each of the three types. -/
theorem mem_verticesOf_types {id : Uuid} {vertex : Vertex} :
    (id, vertex) ∈ g.verticesOf .schema ++ (g.verticesOf .definition ++ g.verticesOf .view) ↔
      g.vertexAt id = some vertex := by
  simp only [List.mem_append, Graph.mem_verticesOf, ← and_or_left]
  refine and_iff_left_of_imp fun _ => ?_
  cases vertex.t <;> simp

theorem mem_edgesOf_types {key : EdgeKey} {props : Props PropName Value} :
    (key, props) ∈ g.edgesOf .schemaDefinition ++ g.edgesOf .schemaView ↔
      g.edgeAt key = some props := by
  simp only [List.mem_append, Graph.mem_edgesOf, ← and_or_left]
  refine and_iff_left_of_imp fun _ => ?_
  cases key.t <;> simp

/-- An export gives every vertex once. -/
theorem Dumps.vertices (h : Dumps crates g dump) :
    (dump.vertices.map fun vertex => (vertex.1, vertex.2.stored)).Perm
      (g.verticesOf .schema ++ (g.verticesOf .definition ++ g.verticesOf .view)) := by
  rw [DbExport.vertices, List.map_append, List.map_append, List.map_map, List.map_map, List.map_map]
  exact h.schemas.append (h.definitions.append h.views)

theorem Dumps.edges (h : Dumps crates g dump) :
    ((dump.edges crates).map fun edge => (edge.1, (Graph.propsOf edge.2 : Props PropName Value))).Perm
      (g.edgesOf .schemaDefinition ++ g.edgesOf .schemaView) := by
  rw [DbExport.edges, List.map_append, List.map_map, List.map_map]
  exact h.schemaDefinitions.append h.schemaViews

theorem Dumps.nodup_vertices (h : Dumps crates g dump) : (dump.vertices.map (·.1)).Nodup := by
  have hids := h.vertices.map (·.1)
  rw [List.map_map, List.map_append, List.map_append] at hids
  refine hids.nodup_iff.mpr ((g.nodup_verticesOf .schema).append
    ((g.nodup_verticesOf .definition).append (g.nodup_verticesOf .view)
      (g.disjoint_verticesOf (by decide))) (List.disjoint_append_right.mpr ⟨?_, ?_⟩))
  · exact g.disjoint_verticesOf (by decide)
  · exact g.disjoint_verticesOf (by decide)

theorem Dumps.nodup_edges (h : Dumps crates g dump) : ((dump.edges crates).map (·.1)).Nodup := by
  have hkeys := h.edges.map (·.1)
  rw [List.map_map, List.map_append] at hkeys
  exact hkeys.nodup_iff.mpr ((g.nodup_edgesOf .schemaDefinition).append (g.nodup_edgesOf .schemaView)
    (g.disjoint_edgesOf (by decide)))

/-- The graph is what its export, put into the empty graph, gives. -/
theorem Dumps.rebuilds (h : Dumps crates g dump) :
    ((Graph.empty : Graph).putVertices (dump.vertices.map VertexData.entry)).putEdges
      (dump.edges crates) = g := by
  have hentries : (dump.vertices.map VertexData.entry).map (·.1) = dump.vertices.map (·.1) := by
    rw [List.map_map]
    rfl
  refine Graph.putEdges_putVertices_empty (by rw [hentries]; exact h.nodup_vertices) ?_ ?_
    h.nodup_edges ?_ ?_
  · intro entry hentry
    obtain ⟨vertex, hvertex, rfl⟩ := List.mem_map.mp hentry
    exact mem_verticesOf_types.mp (h.vertices.mem_iff.mp
      (List.mem_map_of_mem (f := fun vertex => (vertex.1, vertex.2.stored)) hvertex))
  · intro id hid
    obtain ⟨vertex, hvertex⟩ := Option.ne_none_iff_exists'.mp hid
    obtain ⟨entry, hentry, heq⟩ := List.mem_map.mp
      (h.vertices.mem_iff.mpr (mem_verticesOf_types.mpr hvertex))
    rw [hentries]
    exact List.mem_map.mpr ⟨entry, hentry, congrArg Prod.fst heq⟩
  · intro edge hedge
    exact mem_edgesOf_types.mp (h.edges.mem_iff.mp
      (List.mem_map_of_mem (f := fun edge => (edge.1, Graph.propsOf edge.2)) hedge))
  · intro key hkey
    obtain ⟨props, hprops⟩ := Option.ne_none_iff_exists'.mp hkey
    obtain ⟨edge, hedge, heq⟩ := List.mem_map.mp
      (h.edges.mem_iff.mpr (mem_edgesOf_types.mpr hprops))
    exact List.mem_map.mpr ⟨edge, hedge, congrArg Prod.fst heq⟩

theorem run_getAllSchemaNames_empty (w : World) (hempty : w.graph = .empty) :
    run broker getAllSchemaNames w = (.ok [], w) := by
  have hnone : (Graph.empty : Graph).verticesOf .schema = [] := by
    refine List.eq_nil_iff_forall_not_mem.mpr fun entry hentry => ?_
    have hvertex := (Graph.mem_verticesOf.mp hentry).1
    rw [Graph.vertexAt_empty] at hvertex
    cases hvertex
  have hget : run broker (getVertexPropertiesOf .schema .schemaName) w = (.ok [], w) := by
    show (Except.ok ((w.graph.verticesOf .schema).filterMap _), w) = _
    rw [hempty, hnone]
    rfl
  rw [getAllSchemaNames, run_bind_ok (run_connect w), run_bind_ok hget]
  rfl

/-- In an empty database, the vertices and then the edges are created. -/
theorem run_importAll_empty (w : World) (hempty : w.graph = .empty) :
    run broker (importAll crates dump) w =
      run broker (createVertices dump.vertices >>= fun _ => createEdges (dump.edges crates)) w := by
  have hall : importAll crates dump = (do
      let names ← getAllSchemaNames
      if names.isEmpty then
        createVertices dump.vertices
        createEdges (dump.edges crates)) := by
    rw [importAll, DbExport.vertices, DbExport.edges]
    simp only [createVertices_append, createEdges_append, bind_assoc]
  rw [hall, run_bind_ok (run_getAllSchemaNames_empty w hempty)]
  rfl

/-- An export without an identifier twice. -/
theorem run_importAll_distinct (w : World) (hempty : w.graph = .empty)
    (hnodup : (dump.vertices.map (·.1)).Nodup) :
    run broker (importAll crates dump) w = (.ok (), { w with
      graph := ((Graph.empty : Graph).putVertices (dump.vertices.map VertexData.entry)).putEdges
        (dump.edges crates) }) := by
  have hfree : ∀ vertex ∈ dump.vertices, w.graph.vertexAt vertex.1 = none := by
    intro vertex _
    rw [hempty, Graph.vertexAt_empty]
  rw [run_importAll_empty w hempty, run_bind_ok (run_createVertices w hnodup hfree), run_createEdges,
    hempty]

theorem run_importAll (w : World) (hempty : w.graph = .empty) (h : Dumps crates g dump) :
    run broker (importAll crates dump) w = (.ok (), { w with graph := g }) := by
  rw [run_importAll_distinct w hempty h.nodup_vertices, h.rebuilds]

end Import

/-! ## The round trip -/

section RoundTrip
variable {broker : Broker} {crates : Crates} {g : Graph}

/-- Every database that operations built from the empty one, none of which named another vertex as a
schema, is exported, and importing the export into an empty database reproduces it. -/
theorem export_import {ts : List (Transition Graph Operation)}
    (hrun : Run (Performs crates broker) Graph.empty ts g)
    (hids : ∀ t ∈ ts, ∀ id ∈ t.label.schemaIds, ¬ NotSchema t.before id)
    (hversions : ∀ t ∈ ts, t.label.ReadsBack crates) {w fresh : World} (hgraph : w.graph = g)
    (hempty : fresh.graph = .empty) :
    ∃ dump, (run broker (exportAll crates) w).1 = .ok dump ∧
      ∀ imported, dump.Same imported →
        ∃ w', run broker (importAll crates imported) fresh = (.ok (), w') ∧
          SameReads crates broker w w' ∧
          ∃ dump', (run broker (exportAll crates) w').1 = .ok dump' ∧ dump.Same dump' := by
  obtain ⟨dump, hexported, hdumps⟩ := (encoded_run hrun hids hversions).exported
  refine ⟨dump, by rw [run_exportAll, hgraph, hexported], fun imported hsame => ?_⟩
  refine ⟨{ fresh with graph := g }, run_importAll fresh hempty (hdumps.same hsame), ?_, dump, ?_, .refl dump⟩
  · exact sameReads_of_graph hgraph.symm
  · rw [run_exportAll]
    exact hexported

end RoundTrip

/-- Two schemas with three definitions and a view. -/
theorem export_import_sampleOperations : ∃ ts g, Run (Performs sampleCrates sampleBroker) Graph.empty ts g ∧
    ts.map (·.label) = sampleOperations ∧
    ∃ dump, (run sampleBroker (exportAll sampleCrates) (nextWorld g)).1 = .ok dump ∧
      ∀ imported, dump.Same imported →
        ∃ w', run sampleBroker (importAll sampleCrates imported) (nextWorld .empty) = (.ok (), w') ∧
          SameReads sampleCrates sampleBroker (nextWorld g) w' ∧
          ∃ dump', (run sampleBroker (exportAll sampleCrates) w').1 = .ok dump' ∧ dump.Same dump' := by
  obtain ⟨ts, g, hrun, hlabels, hids, -⟩ := run_sampleOperations
  have hversions : ∀ t ∈ ts, t.label.ReadsBack sampleCrates :=
    forall_label hlabels readsBack_sampleOperations
  exact ⟨ts, g, hrun, hlabels, export_import hrun hids hversions rfl rfl⟩

end CommonDataLayer.SchemaRegistry
