import CommonDataLayer.Foundations.Runs
import CommonDataLayer.SchemaRegistry.Operations

/-! # The registry graph stays well typed, but for calls that name another vertex as a schema

`ensure_schema_exists` asks for a vertex with the given identifier and not for a `SCHEMA` vertex
(`get_view` filters by type). An operation that is given the identifier of a view or of a definition
as that of a schema goes through, and breaks the typing of the graph (`Misdirected`).

`wellTyped_run`: in every run from the empty database, all graphs are well typed exactly if no call
is misdirected. The invariant is restored only at the end of `add_schema` and
`add_view_to_schema`, so the steps of these keep `WellTypedBut`, where some vertices still lack
their edge.
-/
namespace CommonDataLayer.SchemaRegistry
open PropertyGraph TransitionSystem
set_option autoImplicit false

def VertexType.properties : VertexType → List PropName
  | schema => [.schemaName, .schemaTopicName, .schemaQueryAddress, .schemaType]
  | definition => [.definition]
  | view => [.viewName, .jmespath]

theorem eq_schema_of_property {t : VertexType} {name : PropName}
    (hname : name ∈ VertexType.schema.properties) (h : name ∈ t.properties) : t = .schema := by
  revert t name
  intro t name
  cases t <;> cases name <;> decide

def HasType (g : Graph) (id : Uuid) (t : VertexType) : Prop :=
  ∃ props, g.vertexAt id = some { t := t, props := props }

structure WellTyped (g : Graph) : Prop where
  definitionEdge : ∀ schemaId definitionId,
    g.edgeAt (schemaDefinitionKey schemaId definitionId) ≠ none →
      HasType g schemaId .schema ∧ HasType g definitionId .definition
  viewEdge : ∀ schemaId viewId, g.edgeAt (schemaViewKey schemaId viewId) ≠ none →
    HasType g schemaId .schema ∧ HasType g viewId .view
  viewAttached : ∀ viewId, HasType g viewId .view →
    ∃! schemaId, g.edgeAt (schemaViewKey schemaId viewId) ≠ none
  schemaDefined : ∀ schemaId, HasType g schemaId .schema →
    ∃ definitionId, g.edgeAt (schemaDefinitionKey schemaId definitionId) ≠ none
  ownProperties : ∀ id vertex, g.vertexAt id = some vertex →
    ∀ name, vertex.props name ≠ none ↔ name ∈ vertex.t.properties

/-- Well typed, where the schemas and views in `unfinished` have no edges yet. -/
structure WellTypedBut (unfinished : Uuid → Prop) (g : Graph) : Prop where
  definitionEdge : ∀ schemaId definitionId,
    g.edgeAt (schemaDefinitionKey schemaId definitionId) ≠ none →
      HasType g schemaId .schema ∧ HasType g definitionId .definition
  viewEdge : ∀ schemaId viewId, g.edgeAt (schemaViewKey schemaId viewId) ≠ none →
    HasType g schemaId .schema ∧ HasType g viewId .view
  viewAttached : ∀ viewId, HasType g viewId .view → ¬ unfinished viewId →
    ∃! schemaId, g.edgeAt (schemaViewKey schemaId viewId) ≠ none
  viewUnfinished : ∀ viewId, unfinished viewId →
    ∀ schemaId, g.edgeAt (schemaViewKey schemaId viewId) = none
  schemaDefined : ∀ schemaId, HasType g schemaId .schema → ¬ unfinished schemaId →
    ∃ definitionId, g.edgeAt (schemaDefinitionKey schemaId definitionId) ≠ none
  ownProperties : ∀ id vertex, g.vertexAt id = some vertex →
    ∀ name, vertex.props name ≠ none ↔ name ∈ vertex.t.properties

theorem wellTypedBut_nothing {g : Graph} : WellTypedBut (fun _ => False) g ↔ WellTyped g :=
  ⟨fun h => ⟨h.definitionEdge, h.viewEdge, fun id ht => h.viewAttached id ht not_false,
      fun id ht => h.schemaDefined id ht not_false, h.ownProperties⟩,
    fun h => ⟨h.definitionEdge, h.viewEdge, fun id ht _ => h.viewAttached id ht,
      fun _ hid => hid.elim, fun id ht _ => h.schemaDefined id ht, h.ownProperties⟩⟩

theorem wellTyped_empty : WellTyped (Graph.empty : Graph) where
  definitionEdge _ _ h := absurd (Graph.edgeAt_empty _) h
  viewEdge _ _ h := absurd (Graph.edgeAt_empty _) h
  viewAttached _ h := by
    obtain ⟨_, h⟩ := h
    simp at h
  schemaDefined _ h := by
    obtain ⟨_, h⟩ := h
    simp at h
  ownProperties _ _ h := by simp at h

/-! ## The steps of an operation -/

section Steps
variable {g : Graph} {unfinished unfinished' : Uuid → Prop}

theorem HasType.ne_none {id : Uuid} {t : VertexType} (h : HasType g id t) :
    g.vertexAt id ≠ none := by
  obtain ⟨props, hprops⟩ := h
  rw [hprops]
  exact Option.some_ne_none _

theorem HasType.unique {id : Uuid} {t t' : VertexType} (h : HasType g id t)
    (h' : HasType g id t') : t = t' := by
  obtain ⟨props, hprops⟩ := h
  obtain ⟨props', hprops'⟩ := h'
  rw [hprops, Option.some.injEq, Vertex.mk.injEq] at hprops'
  exact hprops'.1

theorem hasType_putVertex {id : Uuid} (hid : g.vertexAt id = none) {t t' : VertexType}
    {values : List (PropName × Value)} {i : Uuid} :
    HasType (g.putVertex id t values) i t' ↔ i = id ∧ t' = t ∨ i ≠ id ∧ HasType g i t' := by
  unfold HasType
  rw [Graph.vertexAt_putVertex _ hid]
  by_cases h : id = i
  · subst h
    simp [eq_comm]
  · simp [h, Ne.symm h]

theorem hasType_putEdge {key : EdgeKey} {values : List (PropName × Value)} {i : Uuid}
    {t : VertexType} : HasType (g.putEdge key values) i t ↔ HasType g i t := by
  unfold HasType
  rw [Graph.vertexAt_putEdge]

theorem hasType_setVertexProperty {id : Uuid} {name : PropName} {value : Value} {i : Uuid}
    {t : VertexType} : HasType (g.setVertexProperty id name value) i t ↔ HasType g i t := by
  unfold HasType
  rw [Graph.vertexAt_setVertexProperty]
  split
  · cases hi : g.vertexAt i with
    | none => simp
    | some vertex =>
      obtain ⟨t, props⟩ := vertex
      simp
  · rfl

theorem WellTypedBut.putVertex (h : WellTypedBut unfinished g) {id : Uuid}
    (hid : g.vertexAt id = none) {t : VertexType} {values : List (PropName × Value)}
    (hown : ∀ name, name ∈ values.map (·.1) ↔ name ∈ t.properties)
    (hsame : ∀ i, i ≠ id → (unfinished' i ↔ unfinished i)) (hnew : t ≠ .definition → unfinished' id) :
    WellTypedBut unfinished' (g.putVertex id t values) := by
  have hkeep {i : Uuid} {t' : VertexType} (hi : HasType g i t') :
      HasType (g.putVertex id t values) i t' :=
    (hasType_putVertex hid).mpr (.inr ⟨fun heq => hi.ne_none (heq ▸ hid), hi⟩)
  refine ⟨?_, ?_, ?_, ?_, ?_, ?_⟩
  · intro schemaId definitionId hedge
    rw [Graph.edgeAt_putVertex] at hedge
    exact (h.definitionEdge schemaId definitionId hedge).imp hkeep hkeep
  · intro schemaId viewId hedge
    rw [Graph.edgeAt_putVertex] at hedge
    exact (h.viewEdge schemaId viewId hedge).imp hkeep hkeep
  · intro viewId ht hfinished
    simp only [Graph.edgeAt_putVertex]
    rcases (hasType_putVertex hid).mp ht with ⟨rfl, rfl⟩ | ⟨hne, ht⟩
    · exact absurd (hnew (by decide)) hfinished
    · exact h.viewAttached viewId ht (mt (hsame viewId hne).mpr hfinished)
  · intro viewId hunfinished schemaId
    rw [Graph.edgeAt_putVertex]
    by_cases hne : viewId = id
    · exact Graph.edgeAt_eq_none (.inr (hne ▸ hid))
    · exact h.viewUnfinished viewId ((hsame viewId hne).mp hunfinished) schemaId
  · intro schemaId ht hfinished
    simp only [Graph.edgeAt_putVertex]
    rcases (hasType_putVertex hid).mp ht with ⟨rfl, rfl⟩ | ⟨hne, ht⟩
    · exact absurd (hnew (by decide)) hfinished
    · exact h.schemaDefined schemaId ht (mt (hsame schemaId hne).mpr hfinished)
  · intro i vertex hi name
    rw [Graph.vertexAt_putVertex _ hid] at hi
    split at hi
    · cases hi
      rw [Graph.propsOf_ne_none]
      exact hown name
    · exact h.ownProperties i vertex hi name

theorem WellTypedBut.setVertexProperty (h : WellTypedBut unfinished g) {id : Uuid}
    {t : VertexType} (ht : HasType g id t) {name : PropName} (hname : name ∈ t.properties)
    (value : Value) : WellTypedBut unfinished (g.setVertexProperty id name value) := by
  refine ⟨?_, ?_, ?_, h.viewUnfinished, ?_, ?_⟩
  · intro schemaId definitionId hedge
    rw [hasType_setVertexProperty, hasType_setVertexProperty]
    exact h.definitionEdge schemaId definitionId hedge
  · intro schemaId viewId hedge
    rw [hasType_setVertexProperty, hasType_setVertexProperty]
    exact h.viewEdge schemaId viewId hedge
  · intro viewId hview
    exact h.viewAttached viewId (hasType_setVertexProperty.mp hview)
  · intro schemaId hschema
    exact h.schemaDefined schemaId (hasType_setVertexProperty.mp hschema)
  · intro i vertex hi other
    rw [Graph.vertexAt_setVertexProperty] at hi
    split at hi
    · rename_i heq
      subst heq
      obtain ⟨props, hprops⟩ := ht
      rw [hprops] at hi
      cases hi
      by_cases hother : other = name
      · subst hother
        simpa using hname
      · simpa [hother] using h.ownProperties id _ hprops other
    · exact h.ownProperties i vertex hi other

theorem WellTypedBut.setVertexProperties (h : WellTypedBut unfinished g) {id : Uuid}
    {t : VertexType} (ht : HasType g id t) {values : List (PropName × Value)}
    (hvalues : ∀ value ∈ values, value.1 ∈ t.properties) :
    WellTypedBut unfinished (g.setVertexProperties id values) := by
  unfold Graph.setVertexProperties
  induction values generalizing g with
  | nil => exact h
  | cons value values ih =>
    exact ih (h.setVertexProperty ht (hvalues value List.mem_cons_self) value.2)
      (hasType_setVertexProperty.mpr ht) fun other hother =>
        hvalues other (List.mem_cons_of_mem value hother)

theorem WellTypedBut.putDefinitionEdge (h : WellTypedBut unfinished g) {schemaId d : Uuid}
    (hschema : HasType g schemaId .schema) (hd : HasType g d .definition)
    (hnew : g.edgeAt (schemaDefinitionKey schemaId d) = none)
    (hsame : ∀ i, i ≠ schemaId → (unfinished' i ↔ unfinished i))
    (hfinished : ¬ unfinished' schemaId) (values : List (PropName × Value)) :
    WellTypedBut unfinished' (g.putEdge (schemaDefinitionKey schemaId d) values) := by
  have hedges : ∀ key, (g.putEdge (schemaDefinitionKey schemaId d) values).edgeAt key ≠ none ↔
      schemaDefinitionKey schemaId d = key ∨ g.edgeAt key ≠ none := by
    intro key
    rw [Graph.edgeAt_putEdge _ hschema.ne_none hd.ne_none hnew]
    by_cases hkey : schemaDefinitionKey schemaId d = key <;> simp [hkey]
  have hviews : ∀ i v, (g.putEdge (schemaDefinitionKey schemaId d) values).edgeAt (schemaViewKey i v)
      = g.edgeAt (schemaViewKey i v) := by
    intro i v
    rw [Graph.edgeAt_putEdge _ hschema.ne_none hd.ne_none hnew, if_neg]
    simp [schemaDefinitionKey, schemaViewKey]
  refine ⟨?_, ?_, ?_, ?_, ?_, ?_⟩
  · intro s d' hedge
    rw [hasType_putEdge, hasType_putEdge]
    rcases (hedges _).mp hedge with heq | hedge
    · cases heq
      exact ⟨hschema, hd⟩
    · exact h.definitionEdge s d' hedge
  · intro s v hedge
    rw [hviews] at hedge
    rw [hasType_putEdge, hasType_putEdge]
    exact h.viewEdge s v hedge
  · intro v hv hvf
    simp only [hviews]
    rw [hasType_putEdge] at hv
    have hne : v ≠ schemaId := by
      intro heq
      subst heq
      cases hv.unique hschema
    exact h.viewAttached v hv (mt (hsame v hne).mpr hvf)
  · intro v hv s
    rw [hviews]
    have hne : v ≠ schemaId := fun heq => hfinished (heq ▸ hv)
    exact h.viewUnfinished v ((hsame v hne).mp hv) s
  · intro s hs hsf
    by_cases hne : s = schemaId
    · exact ⟨d, (hedges _).mpr (.inl (hne ▸ rfl))⟩
    · obtain ⟨d', hd'⟩ := h.schemaDefined s (hasType_putEdge.mp hs) (mt (hsame s hne).mpr hsf)
      exact ⟨d', (hedges _).mpr (.inr hd')⟩
  · intro i vertex hi
    rw [Graph.vertexAt_putEdge] at hi
    exact h.ownProperties i vertex hi

theorem WellTypedBut.putViewEdge (h : WellTypedBut unfinished g) {schemaId viewId : Uuid}
    (hschema : HasType g schemaId .schema) (hview : HasType g viewId .view)
    (hunfinished : unfinished viewId) (hsame : ∀ i, i ≠ viewId → (unfinished' i ↔ unfinished i))
    (hfinished : ¬ unfinished' viewId) (values : List (PropName × Value)) :
    WellTypedBut unfinished' (g.putEdge (schemaViewKey schemaId viewId) values) := by
  have hnew := h.viewUnfinished viewId hunfinished schemaId
  have hedges : ∀ key, (g.putEdge (schemaViewKey schemaId viewId) values).edgeAt key ≠ none ↔
      schemaViewKey schemaId viewId = key ∨ g.edgeAt key ≠ none := by
    intro key
    rw [Graph.edgeAt_putEdge _ hschema.ne_none hview.ne_none hnew]
    by_cases hkey : schemaViewKey schemaId viewId = key <;> simp [hkey]
  have hother : ∀ key, schemaViewKey schemaId viewId ≠ key →
      (g.putEdge (schemaViewKey schemaId viewId) values).edgeAt key = g.edgeAt key := by
    intro key hkey
    rw [Graph.edgeAt_putEdge _ hschema.ne_none hview.ne_none hnew, if_neg hkey]
  have hdefinitions : ∀ s d, schemaViewKey schemaId viewId ≠ schemaDefinitionKey s d := by
    intro s d
    simp [schemaDefinitionKey, schemaViewKey]
  have hviews : ∀ s v, v ≠ viewId → schemaViewKey schemaId viewId ≠ schemaViewKey s v := by
    intro s v hne heq
    exact hne (congrArg EdgeKey.inboundId heq).symm
  refine ⟨?_, ?_, ?_, ?_, ?_, ?_⟩
  · intro s d hedge
    rw [hother _ (hdefinitions s d)] at hedge
    rw [hasType_putEdge, hasType_putEdge]
    exact h.definitionEdge s d hedge
  · intro s v hedge
    rw [hasType_putEdge, hasType_putEdge]
    rcases (hedges _).mp hedge with heq | hedge
    · cases heq
      exact ⟨hschema, hview⟩
    · exact h.viewEdge s v hedge
  · intro v hv hvf
    rw [hasType_putEdge] at hv
    by_cases hne : v = viewId
    · subst hne
      refine ⟨schemaId, (hedges _).mpr (.inl rfl), fun s hs => ?_⟩
      rcases (hedges _).mp hs with heq | hs
      · exact (congrArg EdgeKey.outboundId heq).symm
      · exact absurd (h.viewUnfinished v hunfinished s) hs
    · simp only [hother _ (hviews _ v hne)]
      exact h.viewAttached v hv (mt (hsame v hne).mpr hvf)
  · intro v hv s
    have hne : v ≠ viewId := fun heq => hfinished (heq ▸ hv)
    rw [hother _ (hviews s v hne)]
    exact h.viewUnfinished v ((hsame v hne).mp hv) s
  · intro s hs hsf
    rw [hasType_putEdge] at hs
    have hne : s ≠ viewId := by
      intro heq
      subst heq
      cases hs.unique hview
    simp only [hother _ (hdefinitions s _)]
    exact h.schemaDefined s hs (mt (hsame s hne).mpr hsf)
  · intro i vertex hi
    rw [Graph.vertexAt_putEdge] at hi
    exact h.ownProperties i vertex hi

/-! ## The operations -/

variable {crates : Crates} {draw : ℕ → Uuid}

theorem WellTypedBut.withDefinition (h : WellTypedBut unfinished g) {schemaId d : Uuid}
    (hschema : HasType g schemaId .schema) (hd : g.vertexAt d = none)
    (hsame : ∀ i, i ≠ schemaId → (unfinished' i ↔ unfinished i))
    (hfinished : ¬ unfinished' schemaId) (version : Version) (definition : Definition) :
    WellTypedBut unfinished' (withDefinition crates g schemaId d version definition) := by
  have hput : WellTypedBut unfinished (g.putVertex d .definition definition.intoProperties) :=
    h.putVertex hd (fun _ => Iff.rfl) (fun _ _ => Iff.rfl) (absurd rfl)
  refine hput.putDefinitionEdge ?_ ?_ ?_ hsame hfinished _
  · exact (hasType_putVertex hd).mpr (.inr ⟨fun heq => hschema.ne_none (heq ▸ hd), hschema⟩)
  · exact (hasType_putVertex hd).mpr (.inl ⟨rfl, rfl⟩)
  · rw [Graph.edgeAt_putVertex]
    exact Graph.edgeAt_eq_none (.inr hd)

theorem WellTyped.withSchema (h : WellTyped g) {id d : Uuid} (hid : g.vertexAt id = none)
    (hd : g.vertexAt d = none) (hne : d ≠ id) (schema : Schema) (definition : Definition) :
    WellTyped (withSchema crates g id d schema definition) := by
  have hput : WellTypedBut (· = id) (g.putVertex id .schema schema.intoProperties) :=
    (wellTypedBut_nothing.mpr h).putVertex hid (fun _ => Iff.rfl)
      (fun i hi => iff_of_false hi not_false) fun _ => rfl
  refine wellTypedBut_nothing.mp (hput.withDefinition ?_ ?_ ?_ not_false _ _)
  · exact (hasType_putVertex hid).mpr (.inl ⟨rfl, rfl⟩)
  · rw [Graph.vertexAt_putVertex _ hid, if_neg hne.symm]
    exact hd
  · exact fun i hi => iff_of_false not_false hi

theorem WellTyped.withView (h : WellTyped g) {schemaId viewId : Uuid}
    (hschema : HasType g schemaId .schema) (hview : g.vertexAt viewId = none) (view : View) :
    WellTyped (withView g schemaId viewId view) := by
  have hput : WellTypedBut (· = viewId) (g.putVertex viewId .view view.intoProperties) :=
    (wellTypedBut_nothing.mpr h).putVertex hview (fun _ => Iff.rfl)
      (fun i hi => iff_of_false hi not_false) fun _ => rfl
  refine wellTypedBut_nothing.mp (hput.putViewEdge ?_ ?_ rfl ?_ not_false _)
  · exact (hasType_putVertex hview).mpr (.inr ⟨fun heq => hschema.ne_none (heq ▸ hview), hschema⟩)
  · exact (hasType_putVertex hview).mpr (.inl ⟨rfl, rfl⟩)
  · exact fun i hi => iff_of_false not_false hi

/-- The identifier of a vertex that is not a schema. -/
def NotSchema (g : Graph) (id : Uuid) : Prop := ∃ t, t ≠ .schema ∧ HasType g id t

theorem schema_or_not {id : Uuid} (h : g.vertexAt id ≠ none) :
    HasType g id .schema ∨ NotSchema g id := by
  obtain ⟨⟨t, props⟩, hvertex⟩ := Option.ne_none_iff_exists'.mp h
  by_cases ht : t = .schema
  · exact .inl ⟨props, ht ▸ hvertex⟩
  · exact .inr ⟨t, ht, props, hvertex⟩

theorem NotSchema.not_schema {id : Uuid} (h : NotSchema g id) : ¬ HasType g id .schema := by
  obtain ⟨t, hne, ht⟩ := h
  exact fun hschema => hne (ht.unique hschema)

theorem NotSchema.ne_none {id : Uuid} (h : NotSchema g id) : g.vertexAt id ≠ none := by
  obtain ⟨_, _, ht⟩ := h
  exact ht.ne_none

/-- The identifiers that an operation takes for those of schemas. -/
def Operation.schemaIds : Operation → List Uuid
  | addSchema _ _ => []
  | addNewVersionOfSchema id _ => [id]
  | addViewToSchema schemaId _ _ => [schemaId]
  | updateSchemaName id _ => [id]
  | updateSchemaTopic id _ => [id]
  | updateSchemaQueryAddress id _ => [id]
  | updateSchemaType id _ => [id]
  | updateView _ _ => []

/-- The call names another vertex as the schema, and goes through. -/
def Misdirected (crates : Crates) (g : Graph) : Operation → Prop
  | .addSchema _ _ => False
  | .addNewVersionOfSchema id schema =>
    NotSchema g id ∧ ∃ definition, fullSchema crates g schema.definition = .ok definition
  | .addViewToSchema schemaId view viewId => NotSchema g schemaId ∧
    crates.parseJmespath view.jmespath = .ok () ∧ ∀ id ∈ viewId, g.vertexAt id = none
  | .updateSchemaName id _ => NotSchema g id
  | .updateSchemaTopic id _ => NotSchema g id
  | .updateSchemaQueryAddress id _ => NotSchema g id
  | .updateSchemaType id _ => NotSchema g id
  | .updateView _ _ => False

/-- The graph after an operation. -/
def graphAfter (crates : Crates) (draw : ℕ → Uuid) (g : Graph) (op : Operation) : Graph :=
  ((op.outcome crates draw g).toOption).getD g

theorem wellTyped_updateSchemaProperty (h : WellTyped g) {name : PropName}
    (hname : name ∈ VertexType.schema.properties) (id : Uuid) (value : String) :
    WellTyped ((((updateSchemaPropertyOutcome g name id value).map (·.2)).toOption).getD g) ↔
      ¬ NotSchema g id := by
  unfold updateSchemaPropertyOutcome
  by_cases hid : g.vertexAt id = none
  · rw [if_pos hid]
    exact iff_of_true h fun hnot => hnot.ne_none hid
  rw [if_neg hid]
  show WellTyped (g.setVertexProperty id name (.string value)) ↔ _
  constructor
  · intro hafter hnot
    obtain ⟨t, hne, props, hvertex⟩ := hnot
    have hset := hafter.ownProperties id
    rw [Graph.vertexAt_setVertexProperty, if_pos rfl, hvertex] at hset
    exact hne (eq_schema_of_property hname ((hset _ rfl name).mp (by simp)))
  · intro hnot
    have hschema := (schema_or_not hid).resolve_right hnot
    exact wellTypedBut_nothing.mp ((wellTypedBut_nothing.mpr h).setVertexProperty hschema hname _)

theorem WellTyped.versions_eq_nil (h : WellTyped g) {id : Uuid} (hid : ¬ HasType g id .schema) :
    versions crates g id = .ok [] := by
  have hnone : g.outbound id .schemaDefinition = [] := by
    refine List.eq_nil_iff_forall_not_mem.mpr fun edge hedge => ?_
    obtain ⟨key, props⟩ := edge
    obtain ⟨hout, ht, hprops⟩ := Graph.mem_outbound.mp hedge
    refine hid (h.definitionEdge id key.inboundId ?_).1
    rw [← eq_schemaDefinitionKey hout ht, hprops]
    exact Option.some_ne_none _
  rw [versions, hnone]
  rfl

theorem not_wellTyped_withDefinition {id d : Uuid} (hid : NotSchema g id)
    (hd : g.vertexAt d = none) (version : Version) (definition : Definition) :
    ¬ WellTyped (withDefinition crates g id d version definition) := by
  intro h
  have hne : id ≠ d := fun heq => hid.ne_none (heq ▸ hd)
  refine hid.not_schema ?_
  have hschema := (h.definitionEdge id d ?_).1
  · rw [SchemaRegistry.withDefinition, hasType_putEdge, hasType_putVertex hd] at hschema
    exact (hschema.resolve_left fun heq => hne heq.1).2
  · rw [SchemaRegistry.withDefinition, Graph.edgeAt_putEdge, if_pos rfl]
    · exact Option.some_ne_none _
    · rw [Graph.vertexAt_putVertex _ hd, schemaDefinitionKey, if_neg hne.symm]
      exact hid.ne_none
    · rw [Graph.vertexAt_putVertex _ hd, schemaDefinitionKey, if_pos rfl]
      exact Option.some_ne_none _
    · rw [Graph.edgeAt_putVertex]
      exact Graph.edgeAt_eq_none (.inr hd)

theorem not_wellTyped_withView {schemaId viewId : Uuid} (hid : NotSchema g schemaId)
    (hview : g.vertexAt viewId = none) (view : View) :
    ¬ WellTyped (withView g schemaId viewId view) := by
  intro h
  have hne : schemaId ≠ viewId := fun heq => hid.ne_none (heq ▸ hview)
  refine hid.not_schema ?_
  have hschema := (h.viewEdge schemaId viewId ?_).1
  · rw [SchemaRegistry.withView, hasType_putEdge, hasType_putVertex hview] at hschema
    exact (hschema.resolve_left fun heq => hne heq.1).2
  · rw [SchemaRegistry.withView, Graph.edgeAt_putEdge, if_pos rfl]
    · exact Option.some_ne_none _
    · rw [Graph.vertexAt_putVertex _ hview, schemaViewKey, if_neg hne.symm]
      exact hid.ne_none
    · rw [Graph.vertexAt_putVertex _ hview, schemaViewKey, if_pos rfl]
      exact Option.some_ne_none _
    · rw [Graph.edgeAt_putVertex]
      exact Graph.edgeAt_eq_none (.inr hview)

theorem ViewUpdate.properties_own (view : ViewUpdate) :
    ∀ value ∈ view.properties, value.1 ∈ VertexType.view.properties := by
  intro value hvalue
  simp only [ViewUpdate.properties, List.mem_append, Option.mem_toList,
    Option.map_eq_some_iff] at hvalue
  rcases hvalue with ⟨_, _, rfl⟩ | ⟨_, _, rfl⟩
  · exact List.mem_cons_self
  · exact List.mem_cons_of_mem _ List.mem_cons_self

theorem hasType_of_viewAt {id : Uuid} {view : View} (h : viewAt g id = .ok view) :
    HasType g id .view := by
  unfold viewAt at h
  cases hfilter : (g.vertexAt id).filter fun vertex => vertex.t = .view with
  | none => simp [hfilter] at h
  | some vertex =>
    obtain ⟨hvertex, ht⟩ := Option.filter_eq_some_iff.mp hfilter
    exact ⟨vertex.props, by rw [hvertex, ← of_decide_eq_true ht]⟩

theorem wellTyped_updateView (h : WellTyped g) (id : Uuid) (view : ViewUpdate) :
    WellTyped ((((updateViewOutcome crates g id view).map (·.2)).toOption).getD g) := by
  cases houtcome : updateViewOutcome crates g id view with
  | error e => exact h
  | ok r =>
    obtain ⟨hview, _, hgraph⟩ := updateViewOutcome_eq_ok.mp houtcome
    show WellTyped r.2
    rw [hgraph]
    exact wellTypedBut_nothing.mp ((wellTypedBut_nothing.mpr h).setVertexProperties
      (hasType_of_viewAt hview) view.properties_own)

/-- One operation, from a well-typed graph. -/
theorem wellTyped_graphAfter (h : WellTyped g) {op : Operation} (hfresh : Fresh draw g op.given) :
    WellTyped (graphAfter crates draw g op) ↔ ¬ Misdirected crates g op := by
  unfold graphAfter
  cases op with
  | addSchema schema newId =>
    refine iff_of_true ?_ not_false
    show WellTyped ((((addSchemaOutcome crates draw g schema newId).map (·.2)).toOption).getD g)
    cases houtcome : addSchemaOutcome crates draw g schema newId with
    | error e => exact h
    | ok r =>
      obtain ⟨definition, _, hnew, rfl⟩ := addSchemaOutcome_eq_ok.mp houtcome
      obtain ⟨hd, hne⟩ := firstDefinitionId_free hfresh
      exact h.withSchema (newVertexId_free hfresh hnew) hd hne.symm _ _
  | addNewVersionOfSchema id schema =>
    show WellTyped ((((addNewVersionOutcome crates draw g id schema).map (·.2)).toOption).getD g) ↔ _
    have hd := hfresh.free 0 (by omega)
    by_cases hnot : Misdirected crates g (.addNewVersionOfSchema id schema)
    · refine iff_of_false ?_ (not_not.mpr hnot)
      obtain ⟨hid, definition, hdefinition⟩ := hnot
      have hversions : greatestVersion crates g id schema.version = .ok () := by
        rw [greatestVersion, h.versions_eq_nil hid.not_schema]
        rfl
      rw [addNewVersionOutcome_eq_ok.mpr ⟨hid.ne_none, hversions, definition, hdefinition, rfl⟩]
      exact not_wellTyped_withDefinition hid hd _ _
    · refine iff_of_true ?_ hnot
      cases houtcome : addNewVersionOutcome crates draw g id schema with
      | error e => exact h
      | ok r =>
        obtain ⟨hid, _, definition, hdefinition, rfl⟩ := addNewVersionOutcome_eq_ok.mp houtcome
        have hschema := (schema_or_not hid).resolve_right fun hid => hnot ⟨hid, definition, hdefinition⟩
        exact wellTypedBut_nothing.mp ((wellTypedBut_nothing.mpr h).withDefinition hschema hd
          (fun _ _ => Iff.rfl) not_false _ _)
  | addViewToSchema schemaId view viewId =>
    show WellTyped ((((addViewOutcome crates draw g schemaId view viewId).map
      (·.2)).toOption).getD g) ↔ _
    by_cases hnot : Misdirected crates g (.addViewToSchema schemaId view viewId)
    · refine iff_of_false ?_ (not_not.mpr hnot)
      obtain ⟨hid, hparse, hnew⟩ := hnot
      rw [addViewOutcome_eq_ok.mpr ⟨hid.ne_none, hparse, hnew, rfl⟩]
      exact not_wellTyped_withView hid (newVertexId_free hfresh hnew) view
    · refine iff_of_true ?_ hnot
      cases houtcome : addViewOutcome crates draw g schemaId view viewId with
      | error e => exact h
      | ok r =>
        obtain ⟨hid, hparse, hnew, rfl⟩ := addViewOutcome_eq_ok.mp houtcome
        have hschema := (schema_or_not hid).resolve_right fun hid => hnot ⟨hid, hparse, hnew⟩
        exact h.withView hschema (newVertexId_free hfresh hnew) view
  | updateSchemaName id newName => exact wellTyped_updateSchemaProperty h (by decide) id _
  | updateSchemaTopic id newTopic => exact wellTyped_updateSchemaProperty h (by decide) id _
  | updateSchemaQueryAddress id newQueryAddress =>
    exact wellTyped_updateSchemaProperty h (by decide) id _
  | updateSchemaType id newSchemaType => exact wellTyped_updateSchemaProperty h (by decide) id _
  | updateView id view => exact iff_of_true (wellTyped_updateView h id view) not_false

/-! ## Runs -/

/-- One operation on the database, with new identifiers. -/
def Performs (crates : Crates) (broker : Broker) (g : Graph) (op : Operation) (g' : Graph) : Prop :=
  ∃ w : World, w.graph = g ∧ Fresh w.supply w.graph op.given ∧
    (run broker (op.perform crates) w).2.graph = g'

theorem performs_iff {broker : Broker} {op : Operation} {g' : Graph} :
    Performs crates broker g op g' ↔
      ∃ w : World, w.graph = g ∧ Fresh w.supply g op.given ∧ graphAfter crates w.supply g op = g' := by
  constructor
  · rintro ⟨w, rfl, hfresh, hg⟩
    rw [run_perform w hfresh] at hg
    exact ⟨w, rfl, hfresh, hg⟩
  · rintro ⟨w, rfl, hfresh, hg⟩
    refine ⟨w, rfl, hfresh, ?_⟩
    rw [run_perform w hfresh]
    exact hg

/-- From the empty database, all graphs are well typed exactly if no call is misdirected. -/
theorem wellTyped_run {broker : Broker} {ts : List (Transition Graph Operation)}
    (hrun : Run (Performs crates broker) Graph.empty ts g) :
    (∀ g ∈ states Graph.empty ts, WellTyped g) ↔
      ∀ t ∈ ts, ¬ Misdirected crates t.before t.label := by
  have hstep : ∀ g op g', WellTyped g → Performs crates broker g op g' →
      (WellTyped g' ↔ ¬ Misdirected crates g op) := by
    intro g op g' h hperforms
    obtain ⟨w, _, hfresh, rfl⟩ := performs_iff.mp hperforms
    exact wellTyped_graphAfter h hfresh
  exact hrun.states_iff wellTyped_empty (fun _ h => h)
    (fun g op g' h next => (hstep g op g' h next).mpr)
    fun g op g' h next hnot hafter => hnot ((hstep g op g' h next).mp hafter)

end Steps

/-! ## The sample operations -/

/-- The operation names no vertex of another type as a schema. -/
def Operation.isDirected (g : Graph) (op : Operation) : Bool :=
  op.schemaIds.all fun id => (g.vertexAt id).all fun vertex => vertex.t == .schema

theorem not_notSchema {g : Graph} {op : Operation} (h : op.isDirected g = true) :
    ∀ id ∈ op.schemaIds, ¬ NotSchema g id := by
  rintro id hid ⟨t, ht, props, hvertex⟩
  have hschema := List.all_eq_true.mp h id hid
  rw [hvertex, Option.all_some, beq_iff_eq] at hschema
  exact ht hschema

/-- A misdirected call names the vertex that is no schema. -/
theorem Misdirected.schemaId {crates : Crates} {g : Graph} {op : Operation} (h : Misdirected crates g op) :
    ∃ id ∈ op.schemaIds, NotSchema g id := by
  cases op with
  | addSchema _ _ => exact h.elim
  | addNewVersionOfSchema id _ => exact ⟨id, List.mem_singleton_self id, h.1⟩
  | addViewToSchema schemaId _ _ => exact ⟨schemaId, List.mem_singleton_self schemaId, h.1⟩
  | updateView _ _ => exact h.elim
  | _ => exact ⟨_, List.mem_singleton_self _, h⟩

theorem performs_next {g g' : Graph} {op : Operation} (h : performNext g op = some g') :
    Performs sampleCrates sampleBroker g op g' := by
  obtain ⟨hfresh, hg⟩ := Option.ite_none_right_eq_some.mp h
  exact ⟨nextWorld g, rfl, hfresh, Option.some.inj hg⟩

/-- The reference was replaced by the newest definition of the schema 1. -/
def sampleResolved : Value :=
  .object [("definitions", .object [("order", .object [("title", .string "order")])])]

theorem run_sampleOperations : ∃ ts g, Run (Performs sampleCrates sampleBroker) Graph.empty ts g ∧
    ts.map (·.label) = sampleOperations ∧
    (∀ t ∈ ts, ∀ id ∈ t.label.schemaIds, ¬ NotSchema t.before id) ∧
    definitionAt g 103 = some sampleResolved := by
  have hdirected : (sampleOperations.foldlM (fun g op =>
      if Operation.isDirected g op then performNext g op else none) (Graph.empty : Graph)).isSome = true := by
    decide +kernel
  have hlast : (sampleOperations.foldlM performNext (Graph.empty : Graph)).bind
      (fun g => definitionAt g 103) = some sampleResolved := by rfl
  obtain ⟨g, hg⟩ := Option.isSome_iff_exists.mp hdirected
  rw [foldlM_of_if hg] at hlast
  obtain ⟨ts, hrun, hlabels, hdirected⟩ := Run.of_steps_if hg
  exact ⟨ts, g, hrun.mono fun _ _ _ => performs_next, hlabels, fun t ht => not_notSchema (hdirected t ht),
    hlast⟩

theorem wellTyped_run_sampleOperations : ∃ ts g, Run (Performs sampleCrates sampleBroker) Graph.empty ts g ∧
    ts.map (·.label) = sampleOperations ∧ (∀ t ∈ ts, ¬ Misdirected sampleCrates t.before t.label) ∧
    ((∀ g ∈ states Graph.empty ts, WellTyped g) ↔
      ∀ t ∈ ts, ¬ Misdirected sampleCrates t.before t.label) := by
  obtain ⟨ts, g, hrun, hlabels, hids, -⟩ := run_sampleOperations
  refine ⟨ts, g, hrun, hlabels, fun t ht hmisdirected => ?_, wellTyped_run hrun⟩
  obtain ⟨id, hid, hnot⟩ := hmisdirected.schemaId
  exact hids t ht id hid hnot

/-! ## A view of a definition -/

theorem performs_sampleGraph :
    Performs sampleCrates sampleBroker .empty (.addSchema sampleNewSchema (some 1)) sampleGraph :=
  performs_iff.mpr ⟨sampleWorld .empty 2 4, rfl, ⟨by simp [sampleWorld], by decide, by decide⟩, rfl⟩

/-- A view that is added to the definition 2 of the schema 1. -/
theorem not_wellTyped_view_of_definition : ∃ g, Run (Performs sampleCrates sampleBroker) Graph.empty
    [⟨.empty, .addSchema sampleNewSchema (some 1), sampleGraph⟩,
      ⟨sampleGraph, .addViewToSchema 2 sampleView (some 3), g⟩] g ∧ ¬ WellTyped g := by
  have hfree (id : Uuid) (h2 : 2 ≠ id) (h1 : 1 ≠ id) : sampleGraph.vertexAt id = none := by
    rw [vertexAt_sampleGraph, if_neg h2, if_neg h1]
  have hfresh : Fresh (sampleWorld sampleGraph 5 6).supply sampleGraph [2, 3] := by
    refine ⟨fun n _ => ?_, by decide, by decide⟩
    cases n with
    | zero => exact hfree 5 (by decide) (by decide)
    | succ n => exact hfree 6 (by decide) (by decide)
  have hdefinition : NotSchema sampleGraph 2 :=
    ⟨.definition, by decide, _, by rw [vertexAt_sampleGraph, if_pos rfl]⟩
  have hview := hfree 3 (by decide) (by decide)
  have hafter : graphAfter sampleCrates (sampleWorld sampleGraph 5 6).supply sampleGraph
      (.addViewToSchema 2 sampleView (some 3)) = withView sampleGraph 2 3 sampleView := by
    have hparse : sampleCrates.parseJmespath sampleView.jmespath = .ok () := rfl
    have hgiven : ∀ id ∈ some (3 : Uuid), sampleGraph.vertexAt id = none := by simpa using hview
    have houtcome : addViewOutcome sampleCrates (sampleWorld sampleGraph 5 6).supply sampleGraph 2
        sampleView (some 3) = .ok _ :=
      addViewOutcome_eq_ok.mpr ⟨hdefinition.ne_none, hparse, hgiven, rfl⟩
    rw [graphAfter, Operation.outcome, houtcome]
    rfl
  have hperforms : Performs sampleCrates sampleBroker sampleGraph
      (.addViewToSchema 2 sampleView (some 3)) (withView sampleGraph 2 3 sampleView) :=
    performs_iff.mpr ⟨sampleWorld sampleGraph 5 6, rfl, hfresh, hafter⟩
  exact ⟨withView sampleGraph 2 3 sampleView, .step (.step .start performs_sampleGraph) hperforms,
    not_wellTyped_withView hdefinition hview sampleView⟩

end CommonDataLayer.SchemaRegistry
