import CommonDataLayer.Foundations.Protocol
import CommonDataLayer.SchemaRegistry.Resolution
import CommonDataLayer.SchemaRegistry.Rpc

/-! # The handler of a new version, call by call

`add_schema_version` looks for the schema, reads its versions, resolves the definition, stores it,
creates the edge to it and then sets the version of the edge.

* `uploadProtocol`: these calls in their order, with what the handler knows after them.
* `followsOk_addSchemaVersion`: the handler follows the protocol, whatever the datastore answers.
-/
namespace CommonDataLayer.SchemaRegistry
open Interaction PropertyGraph Std
set_option autoImplicit false

inductive UploadPhase where
  | started
  /-- There is a vertex with the identifier of the schema. -/
  | found
  /-- It has these versions. -/
  | read (properties : List (EdgeKey × Value))
  /-- The vertex of the definition is there. -/
  | stored (definitionId : Uuid)
  /-- The edge to it is there, still without its version. -/
  | linked (definitionId : Uuid)
  | finished

/-- The definition vertex of a handler. -/
def UploadPhase.definition : UploadPhase → Option Uuid
  | .stored d => some d
  | .linked d => some d
  | _ => none

section Protocol
variable (crates : Crates) (schemaId : Uuid) (version : Version)

/-- The version comes from a request, and those in an answer of the datastore are all smaller. -/
structure Checked (properties : List (EdgeKey × Value)) : Prop where
  parsed : ∃ text, crates.parseVersion text = .ok version
  greatest : ∃ found, versionsOf crates schemaId properties = .ok found ∧
    ∀ x ∈ found, compare x.1 version = .lt

def uploadProtocol : Protocol Answer UploadPhase where
  Allows
    | .started, q => q = .transaction ∨ q = .getVertices schemaId
    | .found, q => q = .transaction ∨ q = .getEdgeProperties schemaId .schemaDefinition .version
    | .read properties, q => q = .transaction ∨ (∃ id t name, q = .getEdgeProperties id t name) ∨
      (∃ id name, q = .getVertexProperties id name) ∨
      (q = .createVertexFromType .definition ∧ Checked crates schemaId version properties)
    | .stored d, q => q = .transaction ∨ (∃ name value, q = .setVertexProperties d name value) ∨
      q = .createEdge (schemaDefinitionKey schemaId d)
    | .linked d, q => q = .setEdgeProperties (schemaDefinitionKey schemaId d) .version
      (.string (crates.showVersion version))
    | .finished, q => ∃ event, q = .replicateMessage event
  after
    | .started, .getVertices _, .ok (some _) => .found
    | .found, .getEdgeProperties _ _ _, .ok properties => .read properties
    | .read _, .createVertexFromType _, .ok d => .stored d
    | .stored d, .createEdge _, .ok _ => .linked d
    | .linked _, _, _ => .finished
    | phase, _, _ => phase

end Protocol

section Handler
variable {Phase : Type} {P : Protocol Answer Phase} {phase : Phase} {crates : Crates}
  {schemaId : Uuid} {version : Version} {α ε ε' : Type}

/-- A phase without a definition says nothing about it. -/
theorem forall_mem_none {p : α → Prop} (a : α) (h : a ∈ (none : Option α)) : p a :=
  absurd h (Option.not_mem_none a)

theorem mapError_eq_ok {convert : ε → ε'} {r : Except ε α} {a : α} :
    r.mapError convert = .ok a ↔ r = .ok a := by
  cases r <;> simp [Except.mapError]

theorem followsOk_onError {post : α → Phase → Prop} {convert : ε → ε'} {x : Fallible ε α}
    (h : Program.FollowsOk P post x phase) : Program.FollowsOk P post (onError convert x) phase :=
  Program.Follows.bind h fun _ _ hr a ha => hr a (mapError_eq_ok.mp ha)

/-- Calls that the phase allows and that do not end it. -/
structure Reads (P : Protocol Answer Phase) (phase : Phase) : Prop where
  connect : P.Allows phase .transaction ∧ ∀ a, P.after phase .transaction a = phase
  edges (id : Uuid) (t : EdgeType) (name : PropName) :
    P.Allows phase (.getEdgeProperties id t name) ∧
      ∀ a, P.after phase (.getEdgeProperties id t name) a = phase
  vertex (id : Uuid) (name : PropName) : P.Allows phase (.getVertexProperties id name) ∧
    ∀ a, P.after phase (.getVertexProperties id name) a = phase

theorem stays_connect (h : P.Allows phase .transaction ∧ ∀ a, P.after phase .transaction a = phase) :
    Program.Stays P connect phase :=
  Program.followsOk_call h.1 fun a _ _ => h.2 a

/-- `ensure_schema_exists` ends in the phase in which `get_vertices` has found the vertex. -/
theorem followsOk_ensureSchemaExists {id : Uuid} {reached : Phase}
    (hconnect : P.Allows phase .transaction ∧ ∀ a, P.after phase .transaction a = phase)
    (hget : P.Allows phase (.getVertices id))
    (hreached : ∀ t, P.after phase (.getVertices id) (.ok (some t)) = reached) :
    Program.FollowsOk P (fun _ p => p = reached) (ensureSchemaExists id) phase := by
  have hvertex : Program.FollowsOk P (fun t p => t.isSome → p = reached) (getVertices id) phase := by
    refine Program.followsOk_call hget fun a t ha hsome => ?_
    rw [mapError_eq_ok.mp ha]
    cases t with
    | none => cases hsome
    | some t => exact hreached t
  refine (stays_connect hconnect).followsOk_bind fun _ => hvertex.bind fun t p hfound => ?_
  cases t with
  | none => exact Program.followsOk_throw _
  | some t => exact Program.followsOk_pure (hfound rfl)

theorem stays_getSchemaDefinition (h : Reads P phase) (id : VersionedUuid) :
    Program.Stays P (getSchemaDefinition crates id) phase := by
  have hedges : Program.Stays P (getEdgeProperties id.id .schemaDefinition .version) phase :=
    Program.followsOk_call (h.edges _ _ _).1 fun a _ _ => (h.edges _ _ _).2 a
  have hversions : Program.Stays P (getSchemaVersions crates id.id) phase :=
    (stays_connect h.connect).bind fun _ => hedges.bind fun properties => Program.stays_mk_ret _
  have hlatest : Program.Stays P (getLatestValidSchemaVersion crates id) phase := by
    refine hversions.bind fun found => ?_
    cases maxByVersion (found.filter fun version => id.versionReq.accepts version.1) with
    | none => exact Program.stays_mk_ret _
    | some version => exact Program.stays_mk_ret _
  refine (stays_connect h.connect).bind fun _ => hlatest.bind fun ⟨version, d⟩ => ?_
  have hvertex : Program.Stays P (getVertexProperties d .definition) phase :=
    Program.followsOk_call (h.vertex _ _).1 fun a _ _ => (h.vertex _ _).2 a
  refine hvertex.bind fun value => ?_
  cases value with
  | none => exact Program.stays_mk_ret _
  | some value => exact Program.stays_mk_ret _

theorem stays_retrieveSchemas (h : Reads P phase) (ids : List (String × Uuid))
    (defs : List (String × Value)) : Program.Stays P (retrieveSchemas crates ids defs) phase := by
  induction ids generalizing defs with
  | nil => exact Program.stays_mk_ret _
  | cons entry ids ih => exact (stays_getSchemaDefinition h _).bind fun schema => ih _

theorem stays_buildFullSchema (h : Reads P phase) (schema : Value) :
    Program.Stays P (buildFullSchema crates schema) phase := by
  have hcompile (schema : Value) : Program.Stays P
      (if crates.compile schema then return ⟨schema⟩ else throw .invalidSchema :
        Registry Definition) phase := by
    split <;> exact Program.stays_mk_ret _
  unfold buildFullSchema
  cases definitionsOf schema with
  | none => exact hcompile schema
  | some defs =>
    exact (stays_retrieveSchemas h _ _).bind fun defs => hcompile (setDefinitions schema defs)

theorem reads_read (properties : List (EdgeKey × Value)) :
    Reads (uploadProtocol crates schemaId version) (.read properties) where
  connect := ⟨Or.inl rfl, fun _ => rfl⟩
  edges id t name := ⟨Or.inr (Or.inl ⟨id, t, name, rfl⟩), fun _ => rfl⟩
  vertex id name := ⟨Or.inr (Or.inr (Or.inl ⟨id, name, rfl⟩)), fun _ => rfl⟩

theorem followsOk_getSchemaVersions : Program.FollowsOk (uploadProtocol crates schemaId version)
    (fun found reached => ∃ properties, reached = .read properties ∧
      versionsOf crates schemaId properties = .ok found) (getSchemaVersions crates schemaId) .found := by
  have hget : Program.FollowsOk (uploadProtocol crates schemaId version)
      (fun properties reached => reached = .read properties)
      (getEdgeProperties schemaId .schemaDefinition .version) .found := by
    refine Program.followsOk_call (Or.inr rfl) fun a properties ha => ?_
    rw [mapError_eq_ok.mp ha]
    rfl
  refine (stays_connect ⟨Or.inl rfl, fun _ => rfl⟩).followsOk_bind fun _ => hget.bind ?_
  intro properties reached hreached found hfound
  exact ⟨properties, hreached, hfound⟩

theorem stays_setVertexPropertiesOf (d : Uuid) (values : List (PropName × Value)) :
    Program.Stays (uploadProtocol crates schemaId version) (setVertexPropertiesOf d values)
      (.stored d) := by
  induction values with
  | nil => exact Program.stays_mk_ret _
  | cons value values ih =>
    have hset : Program.Stays (uploadProtocol crates schemaId version)
        (setVertexProperty d value.1 value.2) (.stored d) :=
      Program.followsOk_call (Or.inr (Or.inl ⟨_, _, rfl⟩)) fun _ _ _ => rfl
    exact hset.bind fun _ => ih

theorem followsOk_createDefinition {properties : List (EdgeKey × Value)}
    (h : Checked crates schemaId version properties) (definition : Definition) :
    Program.FollowsOk (uploadProtocol crates schemaId version) (fun d reached => reached = .stored d)
      (createVertexWithProperties definition.vertex none) (.read properties) := by
  have hcreate : Program.FollowsOk (uploadProtocol crates schemaId version)
      (fun d reached => reached = .stored d) (createVertexFromType .definition)
      (.read properties) := by
    refine Program.followsOk_call (Or.inr (Or.inr (Or.inr ⟨rfl, h⟩))) fun a d ha => ?_
    rw [mapError_eq_ok.mp ha]
    rfl
  refine (stays_connect (reads_read properties).connect).followsOk_bind fun _ => hcreate.bind ?_
  intro d reached hreached
  subst hreached
  exact (stays_setVertexPropertiesOf d _).followsOk_bind fun _ => Program.followsOk_pure rfl

theorem followsOk_setEdgeProperties (d : Uuid) : Program.FollowsOk
    (uploadProtocol crates schemaId version) (fun _ reached => reached = .finished)
    (setEdgeProperties (schemaDefinitionKey schemaId d) (versionProperties crates version))
    (.stored d) := by
  have hcreate : Program.FollowsOk (uploadProtocol crates schemaId version)
      (fun _ reached => reached = .linked d) (createEdge (schemaDefinitionKey schemaId d))
      (.stored d) := by
    refine Program.followsOk_call (Or.inr (Or.inr rfl)) fun a created ha => ?_
    rw [mapError_eq_ok.mp ha]
    rfl
  have hset : Program.FollowsOk (uploadProtocol crates schemaId version)
      (fun _ reached => reached = .finished) (setEdgeProperty (schemaDefinitionKey schemaId d) .version
        (.string (crates.showVersion version))) (.linked d) :=
    Program.followsOk_call rfl fun _ _ _ => rfl
  refine (stays_connect ⟨Or.inl rfl, fun _ => rfl⟩).followsOk_bind fun _ => hcreate.bind ?_
  intro created reached hreached
  subst hreached
  exact hset.bind fun _ _ hreached => Program.followsOk_pure hreached

theorem followsOk_addNewVersionOfSchema (schema : NewSchemaVersion)
    (hparsed : ∃ text, crates.parseVersion text = .ok schema.version) : Program.FollowsOk
    (uploadProtocol crates schemaId schema.version) (fun _ reached => reached = .finished)
    (addNewVersionOfSchema crates schemaId schema) .started := by
  have hensured : Program.FollowsOk (uploadProtocol crates schemaId schema.version)
      (fun _ reached => reached = .found) (ensureSchemaExists schemaId) .started :=
    followsOk_ensureSchemaExists ⟨Or.inl rfl, fun _ => rfl⟩ (Or.inr rfl) fun _ => rfl
  refine hensured.bind fun _ _ hfound => ?_
  subst hfound
  refine followsOk_getSchemaVersions.bind fun found reached hread => ?_
  obtain ⟨properties, rfl, hversions⟩ := hread
  have hwrite (hgreatest : ∀ x ∈ found, compare x.1 schema.version = .lt) : Program.FollowsOk
      (uploadProtocol crates schemaId schema.version) (fun _ reached => reached = .finished) (do
        let definition ← buildFullSchema crates schema.definition
        let definitionId ← createVertexWithProperties definition.vertex none
        setEdgeProperties (schemaDefinitionKey schemaId definitionId)
          (versionProperties crates schema.version)) (.read properties) := by
    refine (stays_buildFullSchema (reads_read properties) _).followsOk_bind fun definition => ?_
    refine (followsOk_createDefinition ⟨hparsed, found, hversions, hgreatest⟩ definition).bind ?_
    intro d reached hstored
    subst hstored
    exact followsOk_setEdgeProperties d
  cases hmax : maxByVersion found with
  | none => exact hwrite (lt_of_maxByVersion fun greatest h => nomatch hmax.symm.trans h)
  | some greatest =>
    dsimp only
    split
    · exact (Program.followsOk_throw _).bind fun _ _ h => h
    · rename_i hless
      refine hwrite (lt_of_maxByVersion fun other h => ?_)
      cases hmax.symm.trans h
      exact hless

/-- The version that a request carries. -/
def uploadedVersion (crates : Crates) (text : String) : Version :=
  ((crates.parseVersion text).toOption).getD (.new 0 0 0)

theorem stays_parsed (r : Except Status α) : Program.Stays P (SchemaRegistryImpl.parsed r) phase :=
  Program.stays_mk_ret r

theorem followsOk_addSchemaVersion {id text definition : String}
    (same : crates.parseUuid id = .ok schemaId) :
    Program.FollowsOk (uploadProtocol crates schemaId (uploadedVersion crates text))
      (fun _ reached => reached = .finished)
      (SchemaRegistryImpl.addSchemaVersion crates id text definition) .started := by
  have hid : Program.FollowsOk (uploadProtocol crates schemaId (uploadedVersion crates text))
      (fun id reached => schemaId = id ∧ reached = .started)
      (SchemaRegistryImpl.parsed (parseUuid crates id)) .started := by
    refine Program.followsOk_mk_ret.mpr fun a ha => ⟨?_, rfl⟩
    have ha := mapError_eq_ok.mp ha
    rw [same, Except.ok.injEq] at ha
    exact ha
  have hversion : Program.FollowsOk (uploadProtocol crates schemaId (uploadedVersion crates text))
      (fun version reached => version = uploadedVersion crates text ∧
        crates.parseVersion text = .ok version ∧ reached = .started)
      (SchemaRegistryImpl.parsed (parseVersion crates text)) .started := by
    refine Program.followsOk_mk_ret.mpr fun version hversion => ?_
    have hversion := mapError_eq_ok.mp hversion
    refine ⟨?_, hversion, rfl⟩
    rw [uploadedVersion, hversion]
    rfl
  have hreplicate (event : ReplicationEvent) :
      Program.Stays (uploadProtocol crates schemaId (uploadedVersion crates text))
        (SchemaRegistryImpl.replicateMessage event) .finished :=
    Program.followsOk_call ⟨event, rfl⟩ fun _ _ _ => rfl
  refine hid.bind ?_
  rintro id reached ⟨rfl, rfl⟩
  refine hversion.bind ?_
  rintro version reached ⟨hversion, hparsed, rfl⟩
  refine (stays_parsed _).followsOk_bind fun definition => ?_
  have hdb : Program.FollowsOk (uploadProtocol crates schemaId (uploadedVersion crates text))
      (fun _ reached => reached = .finished) (SchemaRegistryImpl.db crates
        (addNewVersionOfSchema crates schemaId ⟨version, definition⟩)) .started := by
    rw [← hversion]
    exact followsOk_onError (followsOk_addNewVersionOfSchema ⟨version, definition⟩ ⟨text, hparsed⟩)
  refine hdb.bind fun _ _ hfinished => ?_
  subst hfinished
  exact (hreplicate _).followsOk_bind fun _ => Program.followsOk_pure rfl

end Handler

end CommonDataLayer.SchemaRegistry
