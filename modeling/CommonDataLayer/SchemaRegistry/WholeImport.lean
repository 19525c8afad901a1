import CommonDataLayer.SchemaRegistry.ImportExport

/-! # Imports, whole or not

`import_all` writes vertices and then edges, one after the other. A vertex that is there already ends
it with what was written so far; an edge whose vertex is missing is refused by `create_edge`, and
nobody looks at the answer; and an edge that comes twice keeps its last version.

* `AllOrNothing`: an import is whole, or an error that writes nothing.
* `Importable`: no identifier twice, no edge without its vertices, no edge with two versions.
* `allOrNothing_importAll_iff`: these are the same.
-/
namespace CommonDataLayer.SchemaRegistry
open Interaction PropertyGraph
set_option autoImplicit false

/-- All schemas, definitions, views and edges of an export are in the graph. -/
structure Imported (crates : Crates) (g : Graph) (dump : DbExport) : Prop where
  vertices : ∀ vertex ∈ dump.vertices, g.vertexAt vertex.1 = some vertex.2.stored
  edges : ∀ edge ∈ dump.edges crates, g.edgeAt edge.1 = some (Graph.propsOf edge.2)

/-- There is a schema; what has no name yet is not one. -/
def HasSchemas (g : Graph) : Prop :=
  ∃ id vertex, g.vertexAt id = some vertex ∧ vertex.t = .schema ∧ vertex.props .schemaName ≠ none

/-- An empty database gets everything or, with an error, nothing; one with schemas stays as it is. -/
structure AllOrNothing (crates : Crates) (broker : Broker) (dump : DbExport) : Prop where
  empty : ∀ w w' r, w.graph = .empty → run broker (importAll crates dump) w = (r, w') →
    (r ≠ .ok () ∧ w'.graph = .empty) ∨ (r = .ok () ∧ Imported crates w'.graph dump)
  hasSchemas : ∀ w, HasSchemas w.graph → (run broker (importAll crates dump) w).2.graph = w.graph

/-- No identifier comes twice, an edge is between vertices of the export, and it has one version. -/
structure Importable (crates : Crates) (dump : DbExport) : Prop where
  distinct : (dump.vertices.map (·.1)).Nodup
  endpoints : ∀ edge ∈ dump.edges crates, edge.1.outboundId ∈ dump.vertices.map (·.1) ∧
    edge.1.inboundId ∈ dump.vertices.map (·.1)
  versions : ∀ edge ∈ dump.schemaDefinitions, ∀ edge' ∈ dump.schemaDefinitions,
    edge.schemaId = edge'.schemaId → edge.definitionId = edge'.definitionId →
      crates.showVersion edge.version = crates.showVersion edge'.version

section Imports
variable {crates : Crates} {broker : Broker} {dump : DbExport}

/-! ## A database with schemas -/

theorem run_importAll_hasSchemas (w : World) (h : HasSchemas w.graph) :
    (run broker (importAll crates dump) w).2 = w := by
  obtain ⟨id, vertex, hvertex, ht, hname⟩ := h
  obtain ⟨name, hname⟩ := Option.ne_none_iff_exists'.mp hname
  have hget : run broker (getVertexPropertiesOf .schema .schemaName) w =
      (.ok ((w.graph.verticesOf .schema).filterMap fun entry =>
        (entry.2.props .schemaName).map (entry.1, ·)), w) := rfl
  have hmem : (id, name) ∈ (w.graph.verticesOf .schema).filterMap fun entry =>
      (entry.2.props .schemaName).map (entry.1, ·) := by
    refine List.mem_filterMap.mpr ⟨(id, vertex), Graph.mem_verticesOf.mpr ⟨hvertex, ht⟩, ?_⟩
    rw [hname]
    rfl
  generalize (w.graph.verticesOf .schema).filterMap (fun entry =>
    (entry.2.props .schemaName).map (entry.1, ·)) = allNames at hget hmem
  have hnames : run broker getAllSchemaNames w = (allNames.mapM decodeName, w) := by
    rw [getAllSchemaNames, run_bind_ok (run_connect w), run_bind_ok hget, run_mk_ret]
  cases hdecode : allNames.mapM decodeName with
  | error e =>
    rw [hdecode] at hnames
    rw [importAll, run_bind_error hnames]
  | ok names =>
    rw [hdecode] at hnames
    -- One name for each property, so there is one.
    have hlength := (mapM_ok hdecode).1
    have hsome : names.isEmpty = false := by
      cases names with
      | nil => simp [List.eq_nil_of_length_eq_zero hlength.symm] at hmem
      | cons _ _ => rfl
    rw [importAll, run_bind_ok hnames, hsome]
    rfl

/-! ## An identifier that comes twice -/

/-- A vertex that is there is not taken away. -/
theorem vertexAt_createVertices (w : World) (vertices : List (Uuid × VertexData)) {id : Uuid}
    (h : w.graph.vertexAt id ≠ none) :
    (run broker (createVertices vertices) w).2.graph.vertexAt id ≠ none := by
  induction vertices generalizing w with
  | nil => exact h
  | cons first vertices ih =>
    have hcreate : run broker (createVertexWithProperties first.2 (some first.1)) w = _ :=
      run_createVertexWithProperties_some w first.2 first.1
    by_cases hfree : w.graph.vertexAt first.1 = none
    · rw [if_pos hfree] at hcreate
      rw [createVertices, run_bind_ok hcreate]
      refine ih _ ?_
      rw [Graph.vertexAt_putVertex _ hfree]
      split
      · exact Option.some_ne_none _
      · exact h
    · rw [if_neg hfree] at hcreate
      rw [createVertices, run_bind_error hcreate]
      exact h

/-- Only vertices that are new are created, so their identifiers are distinct. -/
theorem nodup_of_createVertices (w : World) {vertices : List (Uuid × VertexData)}
    (h : (run broker (createVertices vertices) w).1 = .ok ()) :
    (vertices.map (·.1)).Nodup ∧ ∀ vertex ∈ vertices, w.graph.vertexAt vertex.1 = none := by
  induction vertices generalizing w with
  | nil => exact ⟨List.nodup_nil, List.forall_mem_nil _⟩
  | cons first vertices ih =>
    have hcreate : run broker (createVertexWithProperties first.2 (some first.1)) w = _ :=
      run_createVertexWithProperties_some w first.2 first.1
    by_cases hfree : w.graph.vertexAt first.1 = none
    · rw [if_pos hfree] at hcreate
      rw [createVertices, run_bind_ok hcreate] at h
      obtain ⟨hnodup, hrest⟩ := ih _ h
      have hother : ∀ vertex ∈ vertices, first.1 ≠ vertex.1 ∧ w.graph.vertexAt vertex.1 = none := by
        intro vertex hvertex
        have hnone := hrest vertex hvertex
        rw [Graph.vertexAt_putVertex _ hfree] at hnone
        split at hnone
        · cases hnone
        · next hne => exact ⟨hne, hnone⟩
      refine ⟨List.nodup_cons.mpr ⟨fun hmem => ?_, hnodup⟩, List.forall_mem_cons.mpr
        ⟨hfree, fun vertex hvertex => (hother vertex hvertex).2⟩⟩
      obtain ⟨vertex, hvertex, heq⟩ := List.mem_map.mp hmem
      exact (hother vertex hvertex).1 heq.symm
    · rw [if_neg hfree] at hcreate
      rw [createVertices, run_bind_error hcreate] at h
      cases h

/-- The import fails, and the first vertex stays. -/
theorem run_importAll_not_distinct (w : World) (hempty : w.graph = .empty)
    (h : ¬ (dump.vertices.map (·.1)).Nodup) :
    (run broker (importAll crates dump) w).1 ≠ .ok () ∧
      (run broker (importAll crates dump) w).2.graph ≠ .empty := by
  rw [run_importAll_empty w hempty]
  cases hcreate : run broker (createVertices dump.vertices) w with
  | mk r w' =>
    cases r with
    | ok =>
      have hok : (run broker (createVertices dump.vertices) w).1 = .ok () := by rw [hcreate]
      exact absurd (nodup_of_createVertices w hok).1 h
    | error e =>
      rw [run_bind_error hcreate]
      have herror : (.error e : Except RegistryError Unit) ≠ .ok () := by simp
      refine ⟨herror, fun hnone => ?_⟩
      cases hvertices : dump.vertices with
      | nil => exact h (hvertices ▸ List.nodup_nil)
      | cons first rest =>
        have hfirst : run broker (createVertexWithProperties first.2 (some first.1)) w = _ :=
          run_createVertexWithProperties_some w first.2 first.1
        have hfree : w.graph.vertexAt first.1 = none := by rw [hempty, Graph.vertexAt_empty]
        rw [if_pos hfree] at hfirst
        rw [hvertices, createVertices, run_bind_ok hfirst] at hcreate
        have hstays : (run broker (createVertices rest) { w with
            graph := w.graph.putVertex first.1 first.2.t first.2.properties }).2.graph.vertexAt
              first.1 ≠ none := by
          refine vertexAt_createVertices _ rest ?_
          rw [Graph.vertexAt_putVertex _ hfree, if_pos rfl]
          exact Option.some_ne_none _
        rw [hcreate, hnone, Graph.vertexAt_empty] at hstays
        exact hstays rfl

/-! ## Distinct identifiers -/

theorem propsOf_versionProperties {version version' : Version} :
    (Graph.propsOf (versionProperties crates version) : Props PropName Value) =
        Graph.propsOf (versionProperties crates version') ↔
      crates.showVersion version = crates.showVersion version' := by
  constructor
  · intro h
    have hvalue : some (Value.string (crates.showVersion version)) =
      some (.string (crates.showVersion version')) := congrFun h .version
    exact Value.string.inj (Option.some.inj hvalue)
  · intro h
    rw [versionProperties, versionProperties, h]

/-- Edges of an export with one key have the same properties: their versions are the same. -/
theorem edges_agree_iff : (∀ edge ∈ dump.edges crates, ∀ edge' ∈ dump.edges crates,
      edge.1 = edge'.1 → (Graph.propsOf edge.2 : Props PropName Value) = Graph.propsOf edge'.2) ↔
    ∀ edge ∈ dump.schemaDefinitions, ∀ edge' ∈ dump.schemaDefinitions,
      edge.schemaId = edge'.schemaId → edge.definitionId = edge'.definitionId →
        crates.showVersion edge.version = crates.showVersion edge'.version := by
  constructor
  · intro h edge hedge edge' hedge' hschema hdefinition
    refine propsOf_versionProperties.mp (h _ (List.mem_append_left _ (List.mem_map_of_mem hedge)) _
      (List.mem_append_left _ (List.mem_map_of_mem hedge')) ?_)
    rw [hschema, hdefinition]
  · intro h edge hedge edge' hedge' hkey
    rcases List.mem_append.mp hedge with hedge | hedge <;>
      rcases List.mem_append.mp hedge' with hedge' | hedge' <;>
      obtain ⟨found, hfound, rfl⟩ := List.mem_map.mp hedge <;>
      obtain ⟨found', hfound', rfl⟩ := List.mem_map.mp hedge'
    · refine propsOf_versionProperties.mpr (h found hfound found' hfound' ?_ ?_)
      · exact congrArg PropertyGraph.EdgeKey.outboundId hkey
      · exact congrArg PropertyGraph.EdgeKey.inboundId hkey
    · cases congrArg PropertyGraph.EdgeKey.t hkey
    · cases congrArg PropertyGraph.EdgeKey.t hkey
    · rfl

/-- What is in the graph that an export without an identifier twice gives. -/
theorem imported_iff (h : (dump.vertices.map (·.1)).Nodup) : Imported crates
    (((Graph.empty : Graph).putVertices (dump.vertices.map VertexData.entry)).putEdges
      (dump.edges crates)) dump ↔ Importable crates dump := by
  have hentries : (dump.vertices.map VertexData.entry).map (·.1) = dump.vertices.map (·.1) := by
    rw [List.map_map]
    rfl
  have hnone : ∀ entry ∈ dump.vertices.map VertexData.entry,
      (Graph.empty : Graph).vertexAt entry.1 = none := fun _ _ => Graph.vertexAt_empty _
  obtain ⟨hvertices, hother⟩ := Graph.vertexAt_putVertices (hentries ▸ h) hnone
  have hthere (id : Uuid) : ((Graph.empty : Graph).putVertices
      (dump.vertices.map VertexData.entry)).vertexAt id ≠ none ↔ id ∈ dump.vertices.map (·.1) := by
    rw [← hentries]
    constructor
    · intro hid
      by_contra hnot
      exact hid ((hother id hnot).trans (Graph.vertexAt_empty id))
    · intro hid
      obtain ⟨entry, hentry, rfl⟩ := List.mem_map.mp hid
      rw [hvertices entry hentry]
      exact Option.some_ne_none _
  have hfree : ∀ edge ∈ dump.edges crates, ((Graph.empty : Graph).putVertices
      (dump.vertices.map VertexData.entry)).edgeAt edge.1 = none := by
    intro edge _
    rw [Graph.edgeAt_putVertices, Graph.edgeAt_empty]
  have hedges := Graph.edgeAt_putEdges_iff hfree
  simp only [hthere, edges_agree_iff] at hedges
  constructor
  · intro himported
    obtain ⟨hendpoints, hversions⟩ := hedges.mp himported.edges
    exact ⟨h, hendpoints, hversions⟩
  · intro himportable
    refine ⟨fun vertex hvertex => ?_, hedges.mpr ⟨himportable.endpoints, himportable.versions⟩⟩
    rw [Graph.vertexAt_putEdges]
    exact hvertices _ (List.mem_map_of_mem hvertex)

/-- An import is all or nothing exactly for an export without an identifier twice, an edge to a
missing vertex and an edge with two versions. -/
theorem allOrNothing_importAll_iff : AllOrNothing crates broker dump ↔ Importable crates dump := by
  constructor
  · intro h
    obtain ⟨w, hempty⟩ : ∃ w : World, w.graph = .empty := ⟨sampleWorld .empty 0 0, rfl⟩
    by_cases hnodup : (dump.vertices.map (·.1)).Nodup
    · rcases h.empty w _ _ hempty (run_importAll_distinct w hempty hnodup) with herror | hok
      · exact absurd rfl herror.1
      · exact (imported_iff hnodup).mp hok.2
    · obtain ⟨herror, hleft⟩ : (run broker (importAll crates dump) w).1 ≠ .ok () ∧ _ :=
        run_importAll_not_distinct w hempty hnodup
      rcases h.empty w _ _ hempty rfl with hnothing | hok
      · exact absurd hnothing.2 hleft
      · exact absurd hok.1 herror
  · intro h
    refine ⟨fun w w' r hempty hrun => .inr ?_, fun w hschemas => ?_⟩
    · rw [run_importAll_distinct w hempty h.distinct] at hrun
      cases hrun
      exact ⟨rfl, (imported_iff h.distinct).mpr h⟩
    · rw [run_importAll_hasSchemas w hschemas]

end Imports

/-- A version of a schema that is not in the file. -/
def sampleExport : DbExport where
  schemas := []
  definitions := [(2, ⟨.object []⟩)]
  views := []
  schemaDefinitions := [⟨1, 2, .new 1 0 0⟩]
  schemaViews := []

/-- The edge of `sampleExport` is dropped, and the import returns `Ok`. -/
theorem import_drops_edge : ¬ AllOrNothing sampleCrates sampleBroker sampleExport := by
  intro h
  have hnodup : (sampleExport.vertices.map (·.1)).Nodup := List.nodup_singleton 2
  rcases h.empty (sampleWorld .empty 3 4) _ _ rfl (run_importAll_distinct _ rfl hnodup) with
    herror | hok
  · exact herror.1 rfl
  · have hendpoints := ((imported_iff hnodup).mp hok.2).endpoints _ (List.mem_singleton_self _)
    have hmissing : (1 : Uuid) ∉ sampleExport.vertices.map (·.1) := by decide
    exact hmissing hendpoints.1

end CommonDataLayer.SchemaRegistry
