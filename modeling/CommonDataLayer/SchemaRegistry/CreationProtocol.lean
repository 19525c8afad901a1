import CommonDataLayer.SchemaRegistry.Encoding
import CommonDataLayer.SchemaRegistry.UploadProtocol

/-! # Creating, call by call

`add_schema`, `add_new_version_of_schema` and `add_view_to_schema` create a vertex, write its
properties one after the other, and then create the edge to it.

* `Progress`: what such a call has begun and not finished yet, as its datastore calls tell.
* `creationProtocol`: the order of these calls, and that they write values which are read back.
* `followsOk_perform`: the three operations follow it, whatever the datastore answers.
-/
namespace CommonDataLayer.SchemaRegistry
open Interaction PropertyGraph
set_option autoImplicit false

/-- A value that those who read the property accept. -/
def Fits (crates : Crates) : PropName → Value → Prop
  | .schemaType, value => SchemaType.ofValue value ≠ none
  | .definition, _ => True
  | .version, value => crates.versionOfValue value ≠ none
  | _, value => value.asStr ≠ none

def EdgeType.target : EdgeType → VertexType
  | schemaDefinition => .definition
  | schemaView => .view

structure Progress where
  /-- A vertex that is there: the one that was looked up, or the created schema. -/
  parent : Option Uuid
  /-- The created schema, as long as no definition of it has its version. -/
  schema : Option Uuid
  /-- The vertex that was created last, with its properties that are still to be written. -/
  vertex : Option (Uuid × VertexType × List PropName)
  /-- The created edge to a definition, as long as its version is not set. -/
  edge : Option EdgeKey

namespace Progress

def start : Progress := { parent := none, schema := none, vertex := none, edge := none }

/-- The vertex was looked up. -/
def found (id : Uuid) : Progress := { parent := some id, schema := none, vertex := none, edge := none }

def created (p : Progress) (id : Uuid) (t : VertexType) : Progress :=
  { p with
    parent := if t = .schema then some id else p.parent
    schema := if t = .schema then some id else p.schema
    vertex := some (id, t, t.properties) }

/-- The next property of the created vertex is written. -/
def wrote (p : Progress) : Progress :=
  { p with vertex := p.vertex.map fun v => (v.1, v.2.1, v.2.2.tail) }

/-- All properties of the created vertex are written. -/
def stored (p : Progress) (id : Uuid) (t : VertexType) : Progress :=
  { p.created id t with vertex := some (id, t, []) }

def after (p : Progress) : (q : Call) → Answer q → Progress
  | .getVertices id, .ok (some _) => { p with parent := some id }
  | .createVertex id t, .ok true => p.created id t
  | .createVertexFromType t, .ok id => p.created id t
  | .setVertexProperties _ _ _, .ok () => p.wrote
  | .createEdge key, .ok _ => if key.t = .schemaDefinition then { p with edge := some key } else p
  | .setEdgeProperties _ _ _, .ok () => { p with schema := none, edge := none }
  | _, _ => p

/-- What was begun is finished, but that a created schema may still need its definition. -/
structure Ready (p : Progress) (t : VertexType) : Prop where
  vertex : ∀ v ∈ p.vertex, v.2.2 = []
  edge : p.edge = none
  schema : t = .schema → p.schema = none

end Progress

def creationProtocol (crates : Crates) : Protocol Answer Progress where
  Allows p
    | .createVertex _ t => p.Ready t
    | .createVertexFromType t => p.Ready t
    | .setVertexProperties id name value =>
      Fits crates name value ∧ ∃ t rest, p.vertex = some (id, t, name :: rest)
    | .createEdge key => p.edge = none ∧ p.parent = some key.outboundId ∧
      p.vertex = some (key.inboundId, key.t.target, []) ∧ ∀ id ∈ p.schema, id = key.outboundId
    | .setEdgeProperties key name value => Fits crates name value ∧ name = .version ∧
      p.edge = some key ∧ ∀ id ∈ p.schema, id = key.outboundId
    | .topicOrExchangeExists _ => False
    | .replicateMessage _ => False
    | .ack => False
    | _ => True
  after := Progress.after

/-- The operations that create something. -/
def Operation.creates : Operation → Bool
  | addSchema _ _ => true
  | addNewVersionOfSchema _ _ => true
  | addViewToSchema _ _ _ => true
  | _ => false

section Programs
variable {crates : Crates} {p : Progress}

theorem creation_reads : Reads (creationProtocol crates) p where
  connect := ⟨trivial, fun _ => rfl⟩
  edges _ _ _ := ⟨trivial, fun _ => rfl⟩
  vertex _ _ := ⟨trivial, fun _ => rfl⟩

theorem followsOk_writes {id : Uuid} {t : VertexType} {values : List (PropName × Value)}
    (hfits : ∀ value ∈ values, Fits crates value.1 value.2)
    (hvertex : p.vertex = some (id, t, values.map (·.1))) :
    Program.FollowsOk (creationProtocol crates)
      (fun _ reached => reached = { p with vertex := some (id, t, []) })
      (setVertexPropertiesOf id values) p := by
  induction values generalizing p with
  | nil =>
    refine Program.followsOk_pure ?_
    cases p
    cases hvertex
    rfl
  | cons value values ih =>
    rw [List.forall_mem_cons] at hfits
    have hset : Program.FollowsOk (creationProtocol crates)
        (fun _ reached => reached = { p with vertex := some (id, t, values.map (·.1)) })
        (setVertexProperty id value.1 value.2) p := by
      refine Program.followsOk_call ⟨hfits.1, t, _, hvertex⟩ fun a _ ha => ?_
      rw [mapError_eq_ok.mp ha]
      show p.wrote = _
      rw [Progress.wrote, hvertex]
      rfl
    refine hset.bind fun _ reached hreached => ?_
    subst hreached
    exact @ih { p with vertex := some (id, t, values.map (·.1)) } hfits.2 rfl

/-- A vertex is created, and all its properties are written. -/
theorem followsOk_createVertexWithProperties (data : VertexData) (hready : p.Ready data.t)
    (hnames : data.properties.map (·.1) = data.t.properties)
    (hfits : ∀ value ∈ data.properties, Fits crates value.1 value.2) (uuid : Option Uuid) :
    Program.FollowsOk (creationProtocol crates) (fun id reached => reached = p.stored id data.t)
      (createVertexWithProperties data uuid) p := by
  have hwrites (id : Uuid) : Program.FollowsOk (creationProtocol crates)
      (fun id reached => reached = p.stored id data.t) (do
        setVertexPropertiesOf id data.properties
        return id) (p.created id data.t) := by
    refine (followsOk_writes hfits (by rw [hnames]; rfl)).bind fun _ reached hreached => ?_
    exact Program.followsOk_pure hreached
  refine (stays_connect creation_reads.connect).followsOk_bind fun _ => ?_
  cases uuid with
  | none =>
    have hcreate : Program.FollowsOk (creationProtocol crates)
        (fun id reached => reached = p.created id data.t) (createVertexFromType data.t) p := by
      refine Program.followsOk_call hready fun a id ha => ?_
      rw [mapError_eq_ok.mp ha]
      rfl
    refine hcreate.bind fun id reached hreached => ?_
    subst hreached
    exact hwrites id
  | some id =>
    have hcreate : Program.FollowsOk (creationProtocol crates)
        (fun inserted reached => inserted = true → reached = p.created id data.t)
        (createVertex id data.t) p := by
      refine Program.followsOk_call hready fun a inserted ha hinserted => ?_
      rw [mapError_eq_ok.mp ha, hinserted]
      rfl
    dsimp only
    refine hcreate.bind fun inserted reached hreached => ?_
    cases inserted with
    | false => exact (Program.followsOk_throw _).bind fun _ _ h => h
    | true =>
      rw [hreached rfl]
      exact hwrites id

/-- The vertex is stored, and only the edge to it is missing. -/
structure Progress.Linkable (p : Progress) (key : EdgeKey) : Prop where
  edge : p.edge = none
  parent : p.parent = some key.outboundId
  vertex : p.vertex = some (key.inboundId, key.t.target, [])
  schema : ∀ id ∈ p.schema, id = key.outboundId

theorem followsOk_createEdge {key : EdgeKey} (h : p.Linkable key) :
    Program.FollowsOk (creationProtocol crates) (fun _ reached => reached =
      if key.t = .schemaDefinition then { p with edge := some key } else p) (createEdge key) p := by
  refine Program.followsOk_call ⟨h.edge, h.parent, h.vertex, h.schema⟩ fun a created ha => ?_
  rw [mapError_eq_ok.mp ha]
  rfl

theorem followsOk_definitionEdge {schemaId d : Uuid} (h : p.Linkable (schemaDefinitionKey schemaId d))
    {version : Version} (hversion : crates.parseVersion (crates.showVersion version) = .ok version) :
    Program.FollowsOk (creationProtocol crates) (fun _ _ => True)
      (setEdgeProperties (schemaDefinitionKey schemaId d) (versionProperties crates version)) p := by
  refine (stays_connect creation_reads.connect).followsOk_bind fun _ => ?_
  refine (followsOk_createEdge h).bind fun _ reached hreached => ?_
  have hkey : (schemaDefinitionKey schemaId d).t = .schemaDefinition := rfl
  rw [if_pos hkey] at hreached
  subst hreached
  have hfits : Fits crates .version (.string (crates.showVersion version)) := by
    rw [Fits, versionOfValue_show hversion]
    exact Option.some_ne_none _
  have hset : Program.FollowsOk (creationProtocol crates) (fun _ _ => True)
      (setEdgeProperty (schemaDefinitionKey schemaId d) .version (.string (crates.showVersion version)))
      { p with edge := some (schemaDefinitionKey schemaId d) } :=
    Program.followsOk_call ⟨hfits, rfl, rfl, h.schema⟩ fun _ _ _ => trivial
  exact hset.bind fun _ _ _ => Program.followsOk_pure trivial

theorem followsOk_viewEdge {schemaId viewId : Uuid} (h : p.Linkable (schemaViewKey schemaId viewId)) :
    Program.FollowsOk (creationProtocol crates) (fun _ _ => True)
      (setEdgeProperties (schemaViewKey schemaId viewId) []) p := by
  refine (stays_connect creation_reads.connect).followsOk_bind fun _ => ?_
  exact (followsOk_createEdge h).bind fun _ _ _ => Program.followsOk_pure trivial

/-! ## The three operations -/

theorem ready_start (t : VertexType) : Progress.start.Ready t := ⟨nofun, rfl, fun _ => rfl⟩

theorem Progress.Ready.stored {t : VertexType} (h : p.Ready t) (id : Uuid) :
    (p.stored id t).Ready .definition where
  vertex v hv := by
    cases hv
    rfl
  edge := h.edge
  schema := nofun

theorem followsOk_storeSchema (schema : Schema) (newId : Option Uuid) :
    Program.FollowsOk (creationProtocol crates)
      (fun id reached => reached = Progress.start.stored id .schema)
      (createVertexWithProperties schema.vertex newId) .start := by
  refine followsOk_createVertexWithProperties schema.vertex (ready_start .schema) rfl ?_ newId
  simp [Schema.vertex, Schema.intoProperties, Fits, Value.asStr, SchemaType.ofValue_text]

theorem followsOk_storeView (view : View) (viewId : Option Uuid) (h : p.Ready .view) :
    Program.FollowsOk (creationProtocol crates) (fun id reached => reached = p.stored id .view)
      (createVertexWithProperties view.vertex viewId) p := by
  refine followsOk_createVertexWithProperties view.vertex h rfl ?_ viewId
  simp [View.vertex, View.intoProperties, Fits, Value.asStr]

theorem followsOk_storeDefinition (definition : Definition) (h : p.Ready .definition) :
    Program.FollowsOk (creationProtocol crates) (fun id reached => reached = p.stored id .definition)
      (createVertexWithProperties definition.vertex none) p := by
  refine followsOk_createVertexWithProperties definition.vertex h rfl ?_ none
  simp [Definition.vertex, Definition.intoProperties, Fits]

theorem followsOk_addSchema (schema : NewSchema) (newId : Option Uuid)
    (hversion : crates.parseVersion (crates.showVersion (.new 1 0 0)) = .ok (.new 1 0 0)) :
    Program.FollowsOk (creationProtocol crates) (fun _ _ => True) (addSchema crates schema newId)
      .start := by
  refine (stays_buildFullSchema creation_reads _).followsOk_bind fun definition => ?_
  refine (followsOk_storeSchema schema.split.1 newId).bind fun id reached hreached => ?_
  subst hreached
  refine (followsOk_storeDefinition definition ((ready_start .schema).stored id)).bind ?_
  rintro d reached rfl
  refine (followsOk_definitionEdge ⟨rfl, rfl, rfl, fun i hi => ?_⟩ hversion).bind fun _ _ _ =>
    Program.followsOk_pure trivial
  cases hi
  rfl

theorem ready_found (id : Uuid) (t : VertexType) : (Progress.found id).Ready t :=
  ⟨nofun, rfl, fun _ => rfl⟩

theorem followsOk_ensured (id : Uuid) : Program.FollowsOk (creationProtocol crates)
    (fun _ reached => reached = Progress.found id) (ensureSchemaExists id) .start :=
  followsOk_ensureSchemaExists creation_reads.connect trivial fun _ => rfl

theorem stays_getSchemaVersions (id : Uuid) :
    Program.Stays (creationProtocol crates) (getSchemaVersions crates id) p := by
  have hedges : Program.Stays (creationProtocol crates)
      (getEdgeProperties id .schemaDefinition .version) p :=
    Program.followsOk_call trivial fun _ _ _ => rfl
  exact (stays_connect creation_reads.connect).bind fun _ => hedges.bind fun _ =>
    Program.stays_mk_ret _

theorem followsOk_addVersion (id : Uuid) (schema : NewSchemaVersion)
    (hversion : crates.parseVersion (crates.showVersion schema.version) = .ok schema.version) :
    Program.FollowsOk (creationProtocol crates) (fun _ _ => True)
      (addNewVersionOfSchema crates id schema) .start := by
  refine (followsOk_ensured id).bind fun _ reached hreached => ?_
  subst hreached
  refine (stays_getSchemaVersions id).followsOk_bind fun found => ?_
  have hwrite : Program.FollowsOk (creationProtocol crates) (fun _ _ => True) (do
      let definition ← buildFullSchema crates schema.definition
      let definitionId ← createVertexWithProperties definition.vertex none
      setEdgeProperties (schemaDefinitionKey id definitionId)
        (versionProperties crates schema.version)) (.found id) := by
    refine (stays_buildFullSchema creation_reads _).followsOk_bind fun definition => ?_
    refine (followsOk_storeDefinition definition (ready_found id .definition)).bind ?_
    rintro d reached rfl
    refine followsOk_definitionEdge ⟨rfl, rfl, rfl, fun i hi => ?_⟩ hversion
    cases hi
  cases maxByVersion found with
  | none => exact hwrite
  | some greatest =>
    dsimp only
    split
    · exact (Program.followsOk_throw _).bind fun _ _ h => h
    · exact hwrite

theorem followsOk_addView (schemaId : Uuid) (view : View) (viewId : Option Uuid) :
    Program.FollowsOk (creationProtocol crates) (fun _ _ => True)
      (addViewToSchema crates schemaId view viewId) .start := by
  refine (followsOk_ensured schemaId).bind fun _ reached hreached => ?_
  subst hreached
  refine (Program.stays_mk_ret _).followsOk_bind fun _ => ?_
  refine (followsOk_storeView view viewId (ready_found schemaId .view)).bind ?_
  rintro id reached rfl
  refine (followsOk_viewEdge ⟨rfl, rfl, rfl, fun i hi => ?_⟩).bind fun _ _ _ =>
    Program.followsOk_pure trivial
  cases hi

/-- Every operation that creates something follows the protocol. -/
theorem followsOk_perform {op : Operation} (hop : op.creates) (hversion : op.ReadsBack crates) :
    Program.FollowsOk (creationProtocol crates) (fun _ _ => True) (op.perform crates) .start := by
  cases op with
  | addSchema schema newId =>
    exact (followsOk_addSchema schema newId hversion).bind fun _ _ _ => Program.followsOk_pure trivial
  | addNewVersionOfSchema id schema => exact followsOk_addVersion id schema hversion
  | addViewToSchema schemaId view viewId =>
    exact (followsOk_addView schemaId view viewId).bind fun _ _ _ => Program.followsOk_pure trivial
  | _ => cases hop

end Programs
end CommonDataLayer.SchemaRegistry
