import CommonDataLayer.SchemaRegistry.Db

/-! # What the registry's programs do when they run alone

`run` is the sequential meaning of the registry's programs: the datastore is a property graph, every
call of it succeeds, and a vertex created from a type gets the next identifier of `supply` (which
the datastore refuses when it is taken).

Reading is a function of the graph (`versions`, `latestDefinition`, `fullSchema`, `viewAt`), and
the programs that read leave the world as it is.
-/
namespace CommonDataLayer.SchemaRegistry
open Interaction PropertyGraph
set_option autoImplicit false

structure World where
  graph : Graph
  supply : ℕ → Uuid
  isMaster : Bool
  /-- What `ReplicationState::replicate_message` was given while the role was Master. -/
  sent : List ReplicationEvent
  acks : ℕ

/-- What the brokers answer. -/
structure Broker where
  topicOrExchangeExists : String → Except MessagingSystem.Error Bool
  ack : Except MessagingSystem.Error Unit

/-- Every topic is there, and every acknowledgement arrives. -/
def sampleBroker : Broker where
  topicOrExchangeExists _ := .ok true
  ack := .ok ()

def uuidTaken : String := "UUID already taken"

def answer (broker : Broker) : (q : Call) → World → Answer q × World
  | .transaction, w => (.ok (), w)
  | .createVertex id t, w =>
    (.ok (w.graph.vertexAt id).isNone, { w with graph := w.graph.createVertex id t })
  | .createVertexFromType t, w =>
    let id := w.supply 0
    let w := { w with supply := fun n => w.supply (n + 1) }
    if (w.graph.vertexAt id).isNone then
      (.ok id, { w with graph := w.graph.createVertex id t })
    else (.error uuidTaken, w)
  | .setVertexProperties id name value, w =>
    (.ok (), { w with graph := w.graph.setVertexProperty id name value })
  | .createEdge key, w =>
    (.ok ((w.graph.vertexAt key.outboundId).isSome && (w.graph.vertexAt key.inboundId).isSome),
      { w with graph := w.graph.createEdge key })
  | .setEdgeProperties key name value, w =>
    (.ok (), { w with graph := w.graph.setEdgeProperty key name value })
  | .getVertices id, w => (.ok ((w.graph.vertexAt id).map (·.t)), w)
  | .getAllVertexProperties id, w => (.ok (w.graph.vertexAt id), w)
  | .getVertexProperties id name, w => (.ok ((w.graph.vertexAt id).bind (·.props name)), w)
  | .getEdgeProperties id t name, w =>
    (.ok ((w.graph.outbound id t).filterMap fun edge => (edge.2 name).map (edge.1, ·)), w)
  | .getAllVertexPropertiesOf t, w => (.ok (w.graph.verticesOf t), w)
  | .getVertexPropertiesOf t name, w =>
    (.ok ((w.graph.verticesOf t).filterMap fun entry => (entry.2.props name).map (entry.1, ·)), w)
  | .getOutboundVertexProperties id t, w =>
    (.ok ((w.graph.outbound id t).filterMap fun edge =>
      (w.graph.vertexAt edge.1.inboundId).map (edge.1.inboundId, ·)), w)
  | .getAllEdgeProperties t, w => (.ok (w.graph.edgesOf t), w)
  | .topicOrExchangeExists name, w => (broker.topicOrExchangeExists name, w)
  | .replicateMessage event, w =>
    ((), if w.isMaster then { w with sent := w.sent ++ [event] } else w)
  | .ack, w => (broker.ack, { w with acks := w.acks + 1 })

def run (broker : Broker) {ε α : Type} (x : Fallible ε α) (w : World) : Except ε α × World :=
  Program.run (answer broker) x.run w

variable {broker : Broker} {crates : Crates} {ε ε' α β : Type} (w : World)

/-! ## Running the parts of a program -/

@[simp] theorem run_pure (a : α) : run broker (pure a : Fallible ε α) w = (.ok a, w) := rfl

@[simp] theorem run_throw (e : ε) :
    run broker (throw e : Fallible ε α) w = (.error e, w) := rfl

theorem run_onError (convert : ε → ε') (x : Fallible ε α) : run broker (onError convert x) w =
    ((run broker x w).1.mapError convert, (run broker x w).2) := by
  show Program.run (answer broker) (x.run.bind fun r => .ret (r.mapError convert)) w = _
  rw [Program.run_bind]
  rfl

@[simp] theorem run_mk_ret (r : Except ε α) :
    run broker (ExceptT.mk (.ret r)) w = (r, w) := rfl

theorem run_bind (x : Fallible ε α) (f : α → Fallible ε β) : run broker (x >>= f) w =
    match run broker x w with
    | (.ok a, w') => run broker (f a) w'
    | (.error e, w') => (.error e, w') := by
  show Program.run (answer broker) (x >>= f).run w = _
  rw [Program.run_exceptT_bind]
  unfold run
  generalize Program.run (answer broker) x.run w = result
  obtain ⟨r, w'⟩ := result
  cases r <;> rfl

theorem run_bind_ok {x : Fallible ε α} {w w' : World} {a : α}
    (h : run broker x w = (.ok a, w')) (f : α → Fallible ε β) :
    run broker (x >>= f) w = run broker (f a) w' := by
  rw [run_bind, h]

theorem run_bind_error {x : Fallible ε α} {w w' : World} {e : ε}
    (h : run broker x w = (.error e, w')) (f : α → Fallible ε β) :
    run broker (x >>= f) w = (.error e, w') := by
  rw [run_bind, h]

theorem run_bind_eq_ok {x : Fallible ε α} {f : α → Fallible ε β} {w w' : World} {b : β} :
    run broker (x >>= f) w = (.ok b, w') ↔
      ∃ a mid, run broker x w = (.ok a, mid) ∧ run broker (f a) mid = (.ok b, w') := by
  rw [run_bind]
  cases hrun : run broker x w with
  | mk r mid => cases r <;> simp

/-- A program that reads, and then reads on. -/
theorem run_bind_read {x : Fallible ε α} {f : α → Fallible ε β} {r : Except ε α}
    {k : α → Except ε β} (hx : run broker x w = (r, w))
    (hf : ∀ a, run broker (f a) w = (k a, w)) : run broker (x >>= f) w = (r >>= k, w) := by
  rw [run_bind, hx]
  cases r with
  | ok a => exact hf a
  | error e => rfl

@[simp] theorem run_connect : run broker connect w = (.ok (), w) := rfl

@[simp] theorem run_createVertex (id : Uuid) (t : VertexType) :
    run broker (createVertex id t) w = (.ok (w.graph.vertexAt id).isNone,
      { w with graph := w.graph.createVertex id t }) := rfl

@[simp] theorem run_setVertexProperty (id : Uuid) (name : PropName) (value : Value) :
    run broker (setVertexProperty id name value) w =
      (.ok (), { w with graph := w.graph.setVertexProperty id name value }) := rfl

@[simp] theorem run_setEdgeProperty (key : EdgeKey) (name : PropName) (value : Value) :
    run broker (setEdgeProperty key name value) w =
      (.ok (), { w with graph := w.graph.setEdgeProperty key name value }) := rfl

theorem run_createVertexFromType (t : VertexType) (h : w.graph.vertexAt (w.supply 0) = none) :
    run broker (createVertexFromType t) w = (.ok (w.supply 0),
      { w with graph := w.graph.createVertex (w.supply 0) t,
               supply := fun n => w.supply (n + 1) }) := by
  unfold run createVertexFromType tryCall onError
  simp only [ExceptT.run_mk, Program.perform, Program.call_bind, Program.ret_bind,
    Program.run_call, Program.run_ret, answer, h, Option.isNone_none, if_true]
  rfl

/-! ## Writing -/

theorem run_setVertexPropertiesOf (id : Uuid) (values : List (PropName × Value)) :
    run broker (setVertexPropertiesOf id values) w =
      (.ok (), { w with graph := w.graph.setVertexProperties id values }) := by
  induction values generalizing w with
  | nil => rfl
  | cons value values ih =>
    unfold setVertexPropertiesOf
    rw [run_bind_ok (run_setVertexProperty w id value.1 value.2), ih]
    rfl

theorem run_setEdgePropertiesOf (key : EdgeKey) (values : List (PropName × Value)) :
    run broker (setEdgePropertiesOf key values) w =
      (.ok (), { w with graph := w.graph.setEdgeProperties key values }) := by
  induction values generalizing w with
  | nil => rfl
  | cons value values ih =>
    unfold setEdgePropertiesOf
    rw [run_bind_ok (run_setEdgeProperty w key value.1 value.2), ih]
    rfl

@[simp] theorem run_setVertexProperties (id : Uuid) (values : List (PropName × Value)) :
    run broker (setVertexProperties id values) w =
      (.ok (), { w with graph := w.graph.setVertexProperties id values }) := by
  unfold setVertexProperties
  rw [run_bind_ok (run_connect w), run_setVertexPropertiesOf]

@[simp] theorem run_setEdgeProperties (key : EdgeKey) (values : List (PropName × Value)) :
    run broker (setEdgeProperties key values) w =
      (.ok (), { w with graph := w.graph.putEdge key values }) := by
  unfold setEdgeProperties
  rw [run_bind_ok (run_connect w)]
  have hcreate : run broker (createEdge key) w = (.ok _, { w with graph := w.graph.createEdge key }) :=
    rfl
  rw [run_bind_ok hcreate, run_setEdgePropertiesOf]
  rfl

theorem createVertex_taken {g : Graph} {id : Uuid} (h : g.vertexAt id ≠ none) (t : VertexType) :
    g.createVertex id t = g := by
  refine Graph.ext_lookup (fun i => ?_) fun key => rfl
  rw [Graph.vertexAt_createVertex]
  split
  · rename_i hi
    exact absurd (hi.1 ▸ hi.2) h
  · rfl

theorem run_createVertexWithProperties_some (data : VertexData) (id : Uuid) :
    run broker (createVertexWithProperties data (some id)) w =
      if w.graph.vertexAt id = none then
        (.ok id, { w with graph := w.graph.putVertex id data.t data.properties })
      else (.error (.duplicatedUuid id), w) := by
  unfold createVertexWithProperties
  rw [run_bind_ok (run_connect w), run_bind_ok (run_createVertex w id data.t)]
  by_cases h : w.graph.vertexAt id = none
  · rw [if_pos h]
    simp only [h, Option.isNone_none, Bool.not_true, Bool.false_eq_true, if_false, pure_bind]
    rw [run_bind_ok (run_setVertexPropertiesOf _ id data.properties)]
    rfl
  · have hsome : (w.graph.vertexAt id).isNone = false := by
      simpa only [Option.isNone_eq_false_iff, Option.isSome_iff_ne_none] using h
    rw [if_neg h]
    simp only [hsome, Bool.not_false, if_true, createVertex_taken h]
    rfl

theorem run_createVertexWithProperties_none (data : VertexData)
    (h : w.graph.vertexAt (w.supply 0) = none) :
    run broker (createVertexWithProperties data none) w = (.ok (w.supply 0),
      { w with graph := w.graph.putVertex (w.supply 0) data.t data.properties,
               supply := fun n => w.supply (n + 1) }) := by
  unfold createVertexWithProperties
  rw [run_bind_ok (run_connect w), run_bind_ok (run_createVertexFromType w data.t h),
    run_bind_ok (run_setVertexPropertiesOf _ _ data.properties)]
  rfl

/-! ## Reading -/

section Reads
variable (crates) (g : Graph)

def versions (id : Uuid) : Except RegistryError (List (Version × Uuid)) :=
  versionsOf crates id
    ((g.outbound id .schemaDefinition).filterMap fun edge => (edge.2 .version).map (edge.1, ·))

/-- The definition that a vertex holds. -/
def definitionAt (id : Uuid) : Option Value := (g.vertexAt id).bind (·.props .definition)

/-- The greatest version that a requirement accepts. -/
def latestVersion (id : VersionedUuid) : Except RegistryError (Version × Uuid) := do
  let versions ← versions crates g id.id
  match maxByVersion (versions.filter fun version => id.versionReq.accepts version.1) with
  | some version => .ok version
  | none => .error (.noVersionMatchesRequirement id)

def latestDefinition (id : VersionedUuid) : Except RegistryError SchemaDefinition := do
  let (version, versionVertexId) ← latestVersion crates g id
  match definitionAt g versionVertexId with
  | some value => .ok { version := version, definition := value }
  | none => .error (.noVersionMatchesRequirement id)

def retrieve : List (String × Uuid) → List (String × Value) →
    Except RegistryError (List (String × Value))
  | [], defs => .ok defs
  | (key, id) :: rest, defs => do
    let schema ← latestDefinition crates g (.any id)
    retrieve rest (setMember key schema.definition defs)

/-- A definition with the schemas it refers to put in. -/
def resolve (schema : Value) : Except RegistryError Value :=
  match definitionsOf schema with
  | some defs => do
    let defs ← retrieve crates g (schemasToRetrieve crates defs) defs
    return setDefinitions schema defs
  | none => .ok schema

def fullSchema (schema : Value) : Except RegistryError Definition := do
  let schema ← resolve crates g schema
  if crates.compile schema then return { definition := schema } else .error .invalidSchema

def viewAt (id : Uuid) : Except RegistryError View :=
  match (g.vertexAt id).filter fun vertex => vertex.t = .view with
  | none => .error (.noViewWithId id)
  | some vertex => match View.fromProperties vertex.props with
    | none => .error (.malformedError (.malformedView id))
    | some view => .ok view

end Reads

theorem run_ensureSchemaExists (id : Uuid) : run broker (ensureSchemaExists id) w =
    (if w.graph.vertexAt id = none then .error (.noSchemaWithId id) else .ok (), w) := by
  have hget : run broker (getVertices id) w = (.ok ((w.graph.vertexAt id).map (·.t)), w) := rfl
  unfold ensureSchemaExists
  rw [run_bind_ok (run_connect w), run_bind_ok hget]
  cases w.graph.vertexAt id <;> rfl

theorem run_getSchemaVersions (id : Uuid) :
    run broker (getSchemaVersions crates id) w = (versions crates w.graph id, w) := rfl

theorem run_getLatestValidSchemaVersion (id : VersionedUuid) :
    run broker (getLatestValidSchemaVersion crates id) w = (latestVersion crates w.graph id, w) :=
  run_bind_read w (run_getSchemaVersions w id.id) fun found => by
    cases maxByVersion (found.filter fun version => id.versionReq.accepts version.1) <;> rfl

theorem run_getSchemaDefinition (id : VersionedUuid) :
    run broker (getSchemaDefinition crates id) w = (latestDefinition crates w.graph id, w) := by
  unfold getSchemaDefinition
  rw [run_bind_ok (run_connect w)]
  refine run_bind_read w (run_getLatestValidSchemaVersion w id) fun ⟨version, vertexId⟩ => ?_
  have hget : run broker (getVertexProperties vertexId .definition) w =
    (.ok (definitionAt w.graph vertexId), w) := rfl
  dsimp only
  rw [run_bind_ok hget]
  cases definitionAt w.graph vertexId <;> rfl

theorem run_retrieveSchemas (ids : List (String × Uuid)) (defs : List (String × Value)) :
    run broker (retrieveSchemas crates ids defs) w = (retrieve crates w.graph ids defs, w) := by
  induction ids generalizing defs with
  | nil => rfl
  | cons entry ids ih =>
    exact run_bind_read w (run_getSchemaDefinition w (.any entry.2)) fun schema => ih _

theorem run_buildFullSchema (schema : Value) :
    run broker (buildFullSchema crates schema) w = (fullSchema crates w.graph schema, w) := by
  have hcompile (schema : Value) : run broker
      (if crates.compile schema then return ⟨schema⟩ else throw .invalidSchema :
        Registry Definition) w =
        (if crates.compile schema then .ok ⟨schema⟩ else .error .invalidSchema, w) := by
    split <;> rfl
  unfold buildFullSchema fullSchema resolve
  cases definitionsOf schema with
  | none => exact hcompile schema
  | some defs =>
    refine (run_bind_read w (run_retrieveSchemas w (schemasToRetrieve crates defs) defs)
      fun defs => hcompile (setDefinitions schema defs)).trans ?_
    dsimp only
    cases retrieve crates w.graph (schemasToRetrieve crates defs) defs <;> rfl

theorem run_getView (id : Uuid) :
    run broker (getView id) w = (viewAt w.graph id, w) := by
  have hget : run broker (getAllVertexProperties id) w = (.ok (w.graph.vertexAt id), w) := rfl
  unfold getView viewAt
  rw [run_bind_ok (run_connect w), run_bind_ok hget]
  cases (w.graph.vertexAt id).filter fun vertex => vertex.t = .view with
  | none => rfl
  | some vertex =>
    show run broker (match View.fromProperties vertex.props with | none => _ | some view => _) w =
      (match View.fromProperties vertex.props with | none => _ | some view => _, w)
    cases View.fromProperties vertex.props <;> rfl

end CommonDataLayer.SchemaRegistry
