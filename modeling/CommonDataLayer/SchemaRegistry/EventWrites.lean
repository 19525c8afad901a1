import CommonDataLayer.SchemaRegistry.Replica
import CommonDataLayer.SchemaRegistry.Resolution

/-! # What an event needs and what it writes

An event succeeds when the graph is `Ready` for it, and then it `write`s. `requires` and `creates`
are the vertices it names that have to be there, or must not be; `touched` is all it changes.

* `outcome_eq_ok`: an event succeeds exactly if the graph is ready for it, and leaves what it writes.
* `vertexAt_write`, `edgeAt_write`: what is in the graph afterwards.
* `Ready.congr`: readiness depends on what the event names and on the schemas it refers to.
-/
namespace CommonDataLayer.SchemaRegistry
open Interaction PropertyGraph
set_option autoImplicit false

namespace ReplicationEvent

/-- The definition that an event adds to a schema, as it was given. -/
def definition : ReplicationEvent → Option Value
  | addSchema schema _ => some schema.definition
  | addSchemaVersion _ newVersion => some newVersion.definition
  | _ => none

def requires : ReplicationEvent → Option Uuid
  | addSchema _ _ => none
  | addSchemaVersion id _ => some id
  | updateSchemaMetadata id name topic queryAddress schemaType =>
    if (metadataProperties name topic queryAddress schemaType).isEmpty then none else some id
  | addViewToSchema schemaId _ _ => some schemaId
  | updateView id _ => some id

def creates : ReplicationEvent → Option Uuid
  | addSchema _ id => some id
  | addViewToSchema _ _ viewId => some viewId
  | _ => none

/-- The event succeeds, its definition being `full` when it is resolved. -/
def Ready (crates : Crates) (g : Graph) (full : Definition) : ReplicationEvent → Prop
  | addSchema schema id =>
    fullSchema crates g schema.definition = .ok full ∧ g.vertexAt id = none
  | addSchemaVersion id newVersion => g.vertexAt id ≠ none ∧
    greatestVersion crates g id newVersion.version = .ok () ∧
      fullSchema crates g newVersion.definition = .ok full
  | updateSchemaMetadata id name topic queryAddress schemaType =>
    metadataProperties name topic queryAddress schemaType ≠ [] → g.vertexAt id ≠ none
  | addViewToSchema schemaId view viewId => g.vertexAt schemaId ≠ none ∧
    crates.parseJmespath view.jmespath = .ok () ∧ g.vertexAt viewId = none
  | updateView id view => (∃ oldView, viewAt g id = .ok oldView) ∧
    ∀ jmespath ∈ view.jmespath, crates.parseJmespath jmespath = .ok ()

def write (crates : Crates) (d : Uuid) (full : Definition) (g : Graph) : ReplicationEvent → Graph
  | addSchema schema id => withSchema crates g id d schema.split.1 full
  | addSchemaVersion id newVersion => withDefinition crates g id d newVersion.version full
  | updateSchemaMetadata id name topic queryAddress schemaType =>
    g.setVertexProperties id (metadataProperties name topic queryAddress schemaType)
  | addViewToSchema schemaId view viewId => withView g schemaId viewId view
  | updateView id view => g.setVertexProperties id view.properties

variable {crates : Crates} {event : ReplicationEvent} {g g' : Graph} {full : Definition}
  {d i : Uuid}

theorem outcome_eq_ok {draw : ℕ → Uuid} : event.outcome crates draw g = .ok g' ↔
    ∃ full, event.Ready crates g full ∧ g' = event.write crates (draw 0) full g := by
  cases event with
  | addSchema schema id =>
    rw [outcome, map_eq_ok]
    simp only [addSchemaOutcome_eq_ok, Option.mem_some_iff, forall_eq']
    constructor
    · rintro ⟨r, ⟨full, hfull, hid, rfl⟩, rfl⟩
      exact ⟨full, ⟨hfull, hid⟩, rfl⟩
    · rintro ⟨full, ⟨hfull, hid⟩, rfl⟩
      exact ⟨_, ⟨full, hfull, hid, rfl⟩, rfl⟩
  | addSchemaVersion id newVersion =>
    rw [outcome, map_eq_ok]
    simp only [addNewVersionOutcome_eq_ok]
    constructor
    · rintro ⟨r, ⟨hid, hversion, full, hfull, rfl⟩, rfl⟩
      exact ⟨full, ⟨hid, hversion, hfull⟩, rfl⟩
    · rintro ⟨full, ⟨hid, hversion, hfull⟩, rfl⟩
      exact ⟨_, ⟨hid, hversion, full, hfull, rfl⟩, rfl⟩
  | updateSchemaMetadata id name topic queryAddress schemaType =>
    rw [outcome, setProperties_eq_ok]
    exact ⟨fun h => ⟨⟨.null⟩, h⟩, fun ⟨_, h⟩ => h⟩
  | addViewToSchema schemaId view viewId =>
    rw [outcome, map_eq_ok]
    simp only [addViewOutcome_eq_ok, Option.mem_some_iff, forall_eq']
    constructor
    · rintro ⟨r, ⟨hid, hparse, hview, rfl⟩, rfl⟩
      exact ⟨⟨.null⟩, ⟨hid, hparse, hview⟩, rfl⟩
    · rintro ⟨_, ⟨hid, hparse, hview⟩, rfl⟩
      exact ⟨_, ⟨hid, hparse, hview, rfl⟩, rfl⟩
  | updateView id view =>
    rw [outcome, map_eq_ok]
    simp only [updateViewOutcome_eq_ok]
    constructor
    · rintro ⟨⟨oldView, _⟩, ⟨hview, hparse, rfl⟩, rfl⟩
      exact ⟨⟨.null⟩, ⟨⟨oldView, hview⟩, hparse⟩, rfl⟩
    · rintro ⟨_, ⟨⟨oldView, hview⟩, hparse⟩, rfl⟩
      exact ⟨(oldView, _), ⟨hview, hparse, rfl⟩, rfl⟩

/-! ## What an event names -/

theorem requires_eq_key (h : event.requires = some i) : i = event.key := by
  cases event with
  | addSchema schema id => cases h
  | updateSchemaMetadata id name topic queryAddress schemaType =>
    rw [requires] at h
    split at h
    · cases h
    · exact (Option.some.inj h).symm
  | _ => exact (Option.some.inj h).symm

theorem key_mem_given : event.key ∈ event.given := by
  cases event <;> exact List.mem_cons_self

theorem creates_mem_given (h : event.creates = some i) : i ∈ event.given := by
  cases event with
  | addSchema schema id =>
    rw [← Option.some.inj h]
    exact List.mem_cons_self
  | addViewToSchema schemaId view viewId =>
    rw [← Option.some.inj h]
    exact List.mem_cons_of_mem _ List.mem_cons_self
  | _ => cases h

theorem requires_mem_given (h : event.requires = some i) : i ∈ event.given :=
  requires_eq_key h ▸ key_mem_given

theorem Ready.requires (h : event.Ready crates g full) (hi : event.requires = some i) :
    g.vertexAt i ≠ none := by
  cases event with
  | addSchema schema id => cases hi
  | addSchemaVersion id newVersion => exact Option.some.inj hi ▸ h.1
  | updateSchemaMetadata id name topic queryAddress schemaType =>
    rw [ReplicationEvent.requires] at hi
    split at hi
    · cases hi
    · rename_i hne
      exact Option.some.inj hi ▸ h (by simpa using hne)
  | addViewToSchema schemaId view viewId => exact Option.some.inj hi ▸ h.1
  | updateView id view =>
    obtain ⟨oldView, hview⟩ := h.1
    cases hi
    intro hnone
    rw [viewAt, hnone] at hview
    cases hview

theorem Ready.creates (h : event.Ready crates g full) (hi : event.creates = some i) :
    g.vertexAt i = none := by
  cases event with
  | addSchema schema id => exact Option.some.inj hi ▸ h.2
  | addViewToSchema schemaId view viewId => exact Option.some.inj hi ▸ h.2.2
  | _ => cases hi

theorem Ready.fullSchema (h : event.Ready crates g full) {definition : Value}
    (hdefinition : event.definition = some definition) :
    SchemaRegistry.fullSchema crates g definition = .ok full := by
  cases event with
  | addSchema schema id => exact Option.some.inj hdefinition ▸ h.1
  | addSchemaVersion id newVersion => exact Option.some.inj hdefinition ▸ h.2.2
  | _ => cases hdefinition

theorem Ready.congr (h : event.Ready crates g full)
    (hrequires : ∀ i, event.requires = some i → g'.vertexAt i = g.vertexAt i)
    (hcreates : ∀ i, event.creates = some i → g'.vertexAt i = none)
    (hversions : versions crates g' event.key = versions crates g event.key)
    (hfull : ∀ definition, event.definition = some definition →
      SchemaRegistry.fullSchema crates g' definition = .ok full) :
    event.Ready crates g' full := by
  cases event with
  | addSchema schema id => exact ⟨hfull _ rfl, hcreates id rfl⟩
  | addSchemaVersion id newVersion =>
    have hgreatest : greatestVersion crates g' id newVersion.version =
        greatestVersion crates g id newVersion.version := by
      rw [greatestVersion, greatestVersion, show versions crates g' id = _ from hversions]
      rfl
    exact ⟨hrequires id rfl ▸ h.1, hgreatest.trans h.2.1, hfull _ rfl⟩
  | updateSchemaMetadata id name topic queryAddress schemaType =>
    intro hne
    have hid : (updateSchemaMetadata id name topic queryAddress schemaType).requires = some id :=
      if_neg (by simpa using hne)
    exact hrequires id hid ▸ h hne
  | addViewToSchema schemaId view viewId =>
    exact ⟨hrequires schemaId rfl ▸ h.1, h.2.1, hcreates viewId rfl⟩
  | updateView id view =>
    have hview : viewAt g' id = viewAt g id := by rw [viewAt, viewAt, hrequires id rfl]
    exact ⟨hview ▸ h.1, h.2⟩

/-! ## What is in the graph afterwards -/

/-- The identifier that the datastore draws for the definition, if there is one, is new. -/
def Draws (g : Graph) (given : List Uuid) (d : Uuid) (event : ReplicationEvent) : Prop :=
  event.definition ≠ none → g.vertexAt d = none ∧ d ∉ given

/-- The vertices that an event creates or changes. -/
def touched (d : Uuid) : ReplicationEvent → List Uuid
  | addSchema _ id => [id, d]
  | addSchemaVersion _ _ => [d]
  | addViewToSchema _ _ viewId => [viewId]
  | event => event.requires.toList

/-- A vertex after the event. -/
def vertexAfter (d : Uuid) (full : Definition) (i : Uuid) (old : Option Vertex) :
    ReplicationEvent → Option Vertex
  | addSchema schema id =>
    if d = i then some ⟨.definition, Graph.propsOf full.intoProperties⟩
    else if id = i then some ⟨.schema, Graph.propsOf schema.split.1.intoProperties⟩
    else old
  | addSchemaVersion _ _ =>
    if d = i then some ⟨.definition, Graph.propsOf full.intoProperties⟩ else old
  | updateSchemaMetadata id name topic queryAddress schemaType =>
    if id = i then old.map fun vertex => { vertex with
      props := vertex.props.setAll (metadataProperties name topic queryAddress schemaType) }
    else old
  | addViewToSchema _ view viewId =>
    if viewId = i then some ⟨.view, Graph.propsOf view.intoProperties⟩ else old
  | updateView id view =>
    if id = i then old.map fun vertex => { vertex with props := vertex.props.setAll view.properties }
    else old

def newEdge (crates : Crates) (d : Uuid) : ReplicationEvent → Option (EdgeKey × Props PropName Value)
  | addSchema _ id =>
    some (schemaDefinitionKey id d, Graph.propsOf (versionProperties crates (.new 1 0 0)))
  | addSchemaVersion id newVersion =>
    some (schemaDefinitionKey id d, Graph.propsOf (versionProperties crates newVersion.version))
  | addViewToSchema schemaId _ viewId => some (schemaViewKey schemaId viewId, Graph.propsOf [])
  | _ => none

/-- An edge after the event. -/
def edgeAfter (crates : Crates) (d : Uuid) (key : EdgeKey) (old : Option (Props PropName Value))
    (event : ReplicationEvent) : Option (Props PropName Value) :=
  match event.newEdge crates d with
  | some (newKey, props) => if newKey = key then some props else old
  | none => old

variable {given : List Uuid} {key : EdgeKey}

theorem vertexAt_write (h : event.Ready crates g full) (hd : event.Draws g event.given d) :
    (event.write crates d full g).vertexAt i = event.vertexAfter d full i (g.vertexAt i) := by
  cases event with
  | addSchema schema id =>
    obtain ⟨hfree, hgiven⟩ := hd (Option.some_ne_none _)
    exact vertexAt_withSchema h.2 hfree (fun heq => hgiven (heq ▸ List.mem_cons_self)) _ _ _
  | addSchemaVersion id newVersion =>
    exact vertexAt_withDefinition (hd (Option.some_ne_none _)).1 _ _ _
  | updateSchemaMetadata id name topic queryAddress schemaType =>
    exact Graph.vertexAt_setVertexProperties _ _ _ _
  | addViewToSchema schemaId view viewId => exact vertexAt_withView h.2.2 _ _
  | updateView id view => exact Graph.vertexAt_setVertexProperties _ _ _ _

theorem edgeAt_write (h : event.Ready crates g full) (hd : event.Draws g event.given d) :
    (event.write crates d full g).edgeAt key = event.edgeAfter crates d key (g.edgeAt key) := by
  cases event with
  | addSchema schema id =>
    obtain ⟨hfree, hgiven⟩ := hd (Option.some_ne_none _)
    exact edgeAt_withSchema h.2 hfree (fun heq => hgiven (heq ▸ List.mem_cons_self)) _ _ _
  | addSchemaVersion id newVersion =>
    exact edgeAt_withDefinition h.1 (hd (Option.some_ne_none _)).1 _ _ _
  | updateSchemaMetadata id name topic queryAddress schemaType =>
    exact Graph.edgeAt_setVertexProperties _ _ _ _
  | addViewToSchema schemaId view viewId => exact edgeAt_withView h.1 h.2.2 _ _
  | updateView id view => exact Graph.edgeAt_setVertexProperties _ _ _ _

theorem vertexAfter_of_notMem (hi : i ∉ event.touched d) (old : Option Vertex) :
    event.vertexAfter d full i old = old := by
  cases event with
  | addSchema schema id =>
    rw [touched, List.mem_cons, List.mem_singleton, not_or] at hi
    rw [vertexAfter, if_neg (Ne.symm hi.2), if_neg (Ne.symm hi.1)]
  | addSchemaVersion id newVersion =>
    rw [touched, List.mem_singleton] at hi
    exact if_neg (Ne.symm hi)
  | updateSchemaMetadata id name topic queryAddress schemaType =>
    by_cases hempty : metadataProperties name topic queryAddress schemaType = []
    · rw [vertexAfter, hempty]
      split
      · cases old <;> rfl
      · rfl
    · have hid : (updateSchemaMetadata id name topic queryAddress schemaType).requires = some id :=
        if_neg (by simpa using hempty)
      have hi : i ∉ (updateSchemaMetadata id name topic queryAddress schemaType).requires.toList := hi
      rw [hid, Option.toList_some, List.mem_singleton] at hi
      exact if_neg (Ne.symm hi)
  | addViewToSchema schemaId view viewId =>
    rw [touched, List.mem_singleton] at hi
    exact if_neg (Ne.symm hi)
  | updateView id view =>
    have hi : i ∉ [id] := hi
    rw [List.mem_singleton] at hi
    exact if_neg (Ne.symm hi)

theorem mem_touched (hi : i ∈ event.touched d) :
    event.definition ≠ none ∧ i = d ∨ event.creates = some i ∨ event.requires = some i := by
  cases event with
  | addSchema schema id =>
    rcases List.mem_cons.mp hi with rfl | hi
    · exact Or.inr (Or.inl rfl)
    · exact Or.inl ⟨Option.some_ne_none _, List.mem_singleton.mp hi⟩
  | addSchemaVersion id newVersion =>
    exact Or.inl ⟨Option.some_ne_none _, List.mem_singleton.mp hi⟩
  | addViewToSchema schemaId view viewId =>
    exact Or.inr (Or.inl (congrArg some (List.mem_singleton.mp hi).symm))
  | updateSchemaMetadata => exact Or.inr (Or.inr (Option.mem_toList.mp hi))
  | updateView => exact Or.inr (Or.inr (Option.mem_toList.mp hi))

/-- The edge leaves the vertex of the key. -/
theorem edgeAfter_of_ne (hkey : key.outboundId ≠ event.key) (old : Option (Props PropName Value)) :
    event.edgeAfter crates d key old = old := by
  have hne {newKey : EdgeKey} (hout : newKey.outboundId = event.key) : newKey ≠ key := fun heq =>
    hkey (heq ▸ hout)
  cases event with
  | addSchema => exact if_neg (hne rfl)
  | addSchemaVersion => exact if_neg (hne rfl)
  | addViewToSchema => exact if_neg (hne rfl)
  | updateSchemaMetadata => rfl
  | updateView => rfl

/-- Only a definition comes with a `SCHEMA_DEFINITION` edge. -/
theorem edgeAfter_of_noDefinition (hnone : event.definition = none) (ht : key.t = .schemaDefinition)
    (old : Option (Props PropName Value)) : event.edgeAfter crates d key old = old := by
  cases event with
  | addSchema => cases hnone
  | addSchemaVersion => cases hnone
  | addViewToSchema =>
    refine if_neg fun heq => ?_
    rw [← heq] at ht
    cases ht
  | updateSchemaMetadata => rfl
  | updateView => rfl

/-- The properties of a vertex that an event sets when the vertex is there. -/
def assigns (i : Uuid) : ReplicationEvent → List (PropName × Value)
  | updateSchemaMetadata id name topic queryAddress schemaType =>
    if id = i then metadataProperties name topic queryAddress schemaType else []
  | updateView id view => if id = i then view.properties else []
  | _ => []

theorem definition_notMem_assigns (event : ReplicationEvent) (i : Uuid) :
    .definition ∉ (event.assigns i).map (·.1) := by
  cases event with
  | updateSchemaMetadata id name topic queryAddress schemaType =>
    rw [assigns]
    split
    · cases name <;> cases topic <;> cases queryAddress <;> cases schemaType <;>
        simp [metadataProperties]
    · exact List.not_mem_nil
  | updateView id view =>
    obtain ⟨name, jmespath⟩ := view
    rw [assigns]
    split
    · cases name <;> cases jmespath <;> simp [ViewUpdate.properties]
    · exact List.not_mem_nil
  | _ => exact List.not_mem_nil

/-- A vertex that is there only has the assigned properties set. -/
theorem vertexAt_write_of_some (h : event.Ready crates g full) (hd : event.Draws g event.given d)
    {vertex : Vertex} (hi : g.vertexAt i = some vertex) :
    (event.write crates d full g).vertexAt i =
      some { vertex with props := vertex.props.setAll (event.assigns i) } := by
  have hne {j : Uuid} (hj : g.vertexAt j = none) : j ≠ i := fun heq => by
    rw [heq, hi] at hj
    cases hj
  rw [vertexAt_write h hd, hi]
  cases event with
  | addSchema schema id =>
    rw [vertexAfter, if_neg (hne (hd (Option.some_ne_none _)).1), if_neg (hne h.2)]
    rfl
  | addSchemaVersion id newVersion =>
    rw [vertexAfter, if_neg (hne (hd (Option.some_ne_none _)).1)]
    rfl
  | addViewToSchema schemaId view viewId =>
    rw [vertexAfter, if_neg (hne h.2.2)]
    rfl
  | updateSchemaMetadata id name topic queryAddress schemaType =>
    rw [vertexAfter, assigns]
    split <;> rfl
  | updateView id view =>
    rw [vertexAfter, assigns]
    split <;> rfl

/-- The edge that an event adds leads to a new vertex. -/
theorem edgeAt_write_of_ne_none (h : event.Ready crates g full) (hd : event.Draws g event.given d)
    {key : EdgeKey} (hkey : g.edgeAt key ≠ none) :
    (event.write crates d full g).edgeAt key = g.edgeAt key := by
  have hne {newKey : EdgeKey} (hnew : g.vertexAt newKey.inboundId = none) : newKey ≠ key :=
    fun heq => (Graph.endpoints_of_edgeAt hkey).2 (heq ▸ hnew)
  rw [edgeAt_write h hd]
  cases event with
  | addSchema => exact if_neg (hne (hd (Option.some_ne_none _)).1)
  | addSchemaVersion => exact if_neg (hne (hd (Option.some_ne_none _)).1)
  | addViewToSchema => exact if_neg (hne h.2.2)
  | updateSchemaMetadata => rfl
  | updateView => rfl

theorem vertexAt_write_mono (h : event.Ready crates g full) (hd : event.Draws g event.given d)
    (hi : g.vertexAt i ≠ none) : (event.write crates d full g).vertexAt i ≠ none := by
  obtain ⟨vertex, hvertex⟩ := Option.ne_none_iff_exists'.mp hi
  rw [vertexAt_write_of_some h hd hvertex]
  exact Option.some_ne_none _

theorem vertexAt_write_creates (h : event.Ready crates g full) (hd : event.Draws g event.given d)
    (hi : event.creates = some i) : (event.write crates d full g).vertexAt i ≠ none := by
  rw [vertexAt_write h hd]
  cases event with
  | addSchema =>
    cases hi
    rw [vertexAfter]
    rw [if_pos rfl]
    split <;> exact Option.some_ne_none _
  | addViewToSchema =>
    cases hi
    exact (if_pos rfl).trans_ne (Option.some_ne_none _)
  | _ => cases hi

theorem vertexAt_write_definition (h : event.Ready crates g full)
    (hd : event.Draws g event.given d) (hdefinition : event.definition ≠ none) :
    (event.write crates d full g).vertexAt d =
      some ⟨.definition, Graph.propsOf full.intoProperties⟩ := by
  rw [vertexAt_write h hd]
  cases event with
  | addSchema => exact if_pos rfl
  | addSchemaVersion => exact if_pos rfl
  | _ => exact absurd rfl hdefinition

/-- A vertex that is not named is as it was, or is a new definition. -/
theorem vertexAt_write_cases (h : event.Ready crates g full) (hd : event.Draws g event.given d)
    (hi : i ∉ event.given) : (event.write crates d full g).vertexAt i = g.vertexAt i ∨
      ∃ vertex, (event.write crates d full g).vertexAt i = some vertex ∧ vertex.t = .definition := by
  by_cases htouched : i ∈ event.touched d
  · rcases mem_touched htouched with ⟨hdefinition, rfl⟩ | hcreates | hrequires
    · exact Or.inr ⟨_, vertexAt_write_definition h hd hdefinition, rfl⟩
    · exact absurd (creates_mem_given hcreates) hi
    · exact absurd (requires_mem_given hrequires) hi
  · exact Or.inl (by rw [vertexAt_write h hd, vertexAfter_of_notMem htouched])

/-! ## What is read afterwards -/

theorem versions_write (h : event.Ready crates g full) (hd : event.Draws g event.given d) {id : Uuid}
    (hid : id ≠ event.key) :
    versions crates (event.write crates d full g) id = versions crates g id := by
  have hout : Graph.outbound (event.write crates d full g) id .schemaDefinition =
      g.outbound id .schemaDefinition :=
    Graph.outbound_congr fun key hkey _ => by
      rw [edgeAt_write h hd, edgeAfter_of_ne (hkey ▸ hid)]
  rw [versions, versions, hout]

/-- A definition that is there stays. -/
theorem definitionAt_write (h : event.Ready crates g full) (hd : event.Draws g event.given d)
    (hi : g.vertexAt i ≠ none) :
    definitionAt (event.write crates d full g) i = definitionAt g i := by
  obtain ⟨vertex, hvertex⟩ := Option.ne_none_iff_exists'.mp hi
  rw [definitionAt, definitionAt, vertexAt_write_of_some h hd hvertex, hvertex]
  exact Props.setAll_of_notMem (definition_notMem_assigns event i)

/-- An event gives a schema another latest definition only if it adds one to it. -/
theorem latestValue_write (h : event.Ready crates g full) (hd : event.Draws g event.given d)
    {id : Uuid} (hid : event.definition = none ∨ id ≠ event.key) :
    latestValue crates (event.write crates d full g) id = latestValue crates g id := by
  refine (latestValue_congr (fun key hkey ht => ?_) fun v hv => ?_).symm
  · rw [edgeAt_write h hd]
    rcases hid with hnone | hne
    · rw [edgeAfter_of_noDefinition hnone ht]
    · rw [edgeAfter_of_ne (hkey ▸ hne)]
  · rw [definitionAt_write h hd hv]

/-- What the `semver` crate writes for a version of the event, it reads as that version. -/
def ReadsBack (crates : Crates) : ReplicationEvent → Prop
  | addSchemaVersion _ newVersion =>
    crates.parseVersion (crates.showVersion newVersion.version) = .ok newVersion.version
  | _ => True

/-- A schema that is there has the definition of the event as its latest one. -/
theorem latestValue_write_key (h : event.Ready crates g full) (hd : event.Draws g event.given d)
    (hversion : event.ReadsBack crates) (hdefinition : event.definition ≠ none)
    (hkey : g.vertexAt event.key ≠ none) :
    latestValue crates (event.write crates d full g) event.key = .ok full.definition := by
  cases event with
  | addSchema schema id => exact absurd h.2 hkey
  | addSchemaVersion id newVersion =>
    exact latestValue_withDefinition hkey (hd hdefinition).1 h.2.1 hversion full
  | _ => exact absurd rfl hdefinition

/-! ## Renaming -/

theorem write_noDefinition (hnone : event.definition = none) (d d' : Uuid) (full full' : Definition) :
    event.write crates d full g = event.write crates d' full' g := by
  cases event with
  | addSchema => cases hnone
  | addSchemaVersion => cases hnone
  | _ => rfl

/-- An event writes the same to a renamed graph when its own vertices keep their names. -/
theorem iso_write {σ : Equiv.Perm Uuid} (hiso : Graph.Iso σ g g')
    (hgiven : ∀ i ∈ event.given, σ i = i) :
    Graph.Iso σ (event.write crates d full g) (event.write crates (σ d) full g') := by
  have hdefinition {g g' : Graph} (hiso : Graph.Iso σ g g') {id : Uuid} (hid : σ id = id)
      (version : Version) : Graph.Iso σ (withDefinition crates g id d version full)
        (withDefinition crates g' id (σ d) version full) := by
    have hedge := (hiso.putVertex d .definition full.intoProperties).putEdge
      (schemaDefinitionKey id d) (versionProperties crates version)
    rw [PropertyGraph.EdgeKey.map, schemaDefinitionKey] at hedge
    dsimp only at hedge
    rw [hid] at hedge
    exact hedge
  cases event with
  | addSchema schema id =>
    have hid := hgiven id List.mem_cons_self
    have hschema := hiso.putVertex id .schema schema.split.1.intoProperties
    rw [hid] at hschema
    exact hdefinition hschema hid _
  | addSchemaVersion id newVersion => exact hdefinition hiso (hgiven id List.mem_cons_self) _
  | updateSchemaMetadata id name topic queryAddress schemaType =>
    have hset := hiso.setVertexProperties id
      (metadataProperties name topic queryAddress schemaType)
    rw [hgiven id List.mem_cons_self] at hset
    exact hset
  | addViewToSchema schemaId view viewId =>
    have hedge := (hiso.putVertex viewId .view view.intoProperties).putEdge
      (schemaViewKey schemaId viewId) []
    rw [PropertyGraph.EdgeKey.map, schemaViewKey] at hedge
    dsimp only at hedge
    rw [hgiven schemaId List.mem_cons_self,
      hgiven viewId (List.mem_cons_of_mem _ List.mem_cons_self)] at hedge
    exact hedge
  | updateView id view =>
    have hset := hiso.setVertexProperties id view.properties
    rw [hgiven id List.mem_cons_self] at hset
    exact hset

end ReplicationEvent
end CommonDataLayer.SchemaRegistry
