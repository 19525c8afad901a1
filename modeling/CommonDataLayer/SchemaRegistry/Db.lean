import CommonDataLayer.Foundations.Program
import CommonDataLayer.SchemaRegistry.Types

/-! # The schema database

`SchemaDb` and `build_full_schema`, as programs over single calls of the datastore. Every function
opens its own transaction (`connect`); a transaction does not group the calls made through it.
A datastore error is its text. Iterators over properties are lists in the order in which the source
writes them. The limit `u32::MAX` of the queries stands for no limit.
-/
namespace CommonDataLayer.SchemaRegistry
open Interaction PropertyGraph
set_option autoImplicit false

inductive Call where
  | transaction
  | createVertex (id : Uuid) (t : VertexType)
  | createVertexFromType (t : VertexType)
  | setVertexProperties (id : Uuid) (name : PropName) (value : Value)
  | createEdge (key : EdgeKey)
  | setEdgeProperties (key : EdgeKey) (name : PropName) (value : Value)
  /-- The vertex with this identifier, without its properties. -/
  | getVertices (id : Uuid)
  | getAllVertexProperties (id : Uuid)
  | getVertexProperties (id : Uuid) (name : PropName)
  /-- A property of the edges of one type that leave a vertex. -/
  | getEdgeProperties (id : Uuid) (t : EdgeType) (name : PropName)
  /-- The vertices of a type, with all their properties. -/
  | getAllVertexPropertiesOf (t : VertexType)
  /-- A property of the vertices of a type. -/
  | getVertexPropertiesOf (t : VertexType) (name : PropName)
  /-- The vertices that the edges of one type lead to from a vertex. -/
  | getOutboundVertexProperties (id : Uuid) (t : EdgeType)
  /-- The edges of a type, with all their properties. -/
  | getAllEdgeProperties (t : EdgeType)
  | topicOrExchangeExists (name : String)
  | replicateMessage (event : ReplicationEvent)
  | ack

abbrev Answer : Call → Type
  | .transaction => Except String Unit
  | .createVertex _ _ => Except String Bool
  | .createVertexFromType _ => Except String Uuid
  | .setVertexProperties _ _ _ => Except String Unit
  | .createEdge _ => Except String Bool
  | .setEdgeProperties _ _ _ => Except String Unit
  | .getVertices _ => Except String (Option VertexType)
  | .getAllVertexProperties _ => Except String (Option Vertex)
  | .getVertexProperties _ _ => Except String (Option Value)
  | .getEdgeProperties _ _ _ => Except String (List (EdgeKey × Value))
  | .getAllVertexPropertiesOf _ => Except String (List (Uuid × Vertex))
  | .getVertexPropertiesOf _ _ => Except String (List (Uuid × Value))
  | .getOutboundVertexProperties _ _ => Except String (List (Uuid × Vertex))
  | .getAllEdgeProperties _ => Except String (List (EdgeKey × Props PropName Value))
  | .topicOrExchangeExists _ => Except MessagingSystem.Error Bool
  | .replicateMessage _ => Unit
  | .ack => Except MessagingSystem.Error Unit

abbrev Task (α : Type) : Type := Program Answer α

abbrev Fallible (ε α : Type) : Type := ExceptT ε (Program Answer) α

abbrev Registry (α : Type) : Type := Fallible RegistryError α

/-- `?`, with the conversion of the error. -/
def onError {α ε ε' : Type} (convert : ε → ε') (x : Fallible ε α) : Fallible ε' α :=
  ExceptT.mk (x.run.bind fun r => .ret (r.mapError convert))

def tryCall {α ε : Type} (convert : ε → RegistryError) (call : Task (Except ε α)) : Registry α :=
  onError convert (ExceptT.mk call)

def connect : Registry Unit := tryCall .connectionError (Program.perform Call.transaction)
def createVertex (id : Uuid) (t : VertexType) : Registry Bool :=
  tryCall .dbError (Program.perform (Call.createVertex id t))
def createVertexFromType (t : VertexType) : Registry Uuid :=
  tryCall .dbError (Program.perform (Call.createVertexFromType t))
def setVertexProperty (id : Uuid) (name : PropName) (value : Value) : Registry Unit :=
  tryCall .dbError (Program.perform (Call.setVertexProperties id name value))
def createEdge (key : EdgeKey) : Registry Bool :=
  tryCall .dbError (Program.perform (Call.createEdge key))
def setEdgeProperty (key : EdgeKey) (name : PropName) (value : Value) : Registry Unit :=
  tryCall .dbError (Program.perform (Call.setEdgeProperties key name value))
def getVertices (id : Uuid) : Registry (Option VertexType) :=
  tryCall .dbError (Program.perform (Call.getVertices id))
def getAllVertexProperties (id : Uuid) : Registry (Option Vertex) :=
  tryCall .dbError (Program.perform (Call.getAllVertexProperties id))
def getVertexProperties (id : Uuid) (name : PropName) : Registry (Option Value) :=
  tryCall .dbError (Program.perform (Call.getVertexProperties id name))
def getEdgeProperties (id : Uuid) (t : EdgeType) (name : PropName) :
    Registry (List (EdgeKey × Value)) :=
  tryCall .dbError (Program.perform (Call.getEdgeProperties id t name))
def getAllVertexPropertiesOf (t : VertexType) : Registry (List (Uuid × Vertex)) :=
  tryCall .dbError (Program.perform (Call.getAllVertexPropertiesOf t))
def getVertexPropertiesOf (t : VertexType) (name : PropName) : Registry (List (Uuid × Value)) :=
  tryCall .dbError (Program.perform (Call.getVertexPropertiesOf t name))
def getOutboundVertexProperties (id : Uuid) (t : EdgeType) : Registry (List (Uuid × Vertex)) :=
  tryCall .dbError (Program.perform (Call.getOutboundVertexProperties id t))
def getAllEdgeProperties (t : EdgeType) : Registry (List (EdgeKey × Props PropName Value)) :=
  tryCall .dbError (Program.perform (Call.getAllEdgeProperties t))

/-! ## Writing vertices and edges -/

def setVertexPropertiesOf (id : Uuid) : List (PropName × Value) → Registry Unit
  | [] => return ()
  | (name, value) :: rest => do
    setVertexProperty id name value
    setVertexPropertiesOf id rest

def setEdgePropertiesOf (key : EdgeKey) : List (PropName × Value) → Registry Unit
  | [] => return ()
  | (name, value) :: rest => do
    setEdgeProperty key name value
    setEdgePropertiesOf key rest

def createVertexWithProperties (vertex : VertexData) (uuid : Option Uuid) : Registry Uuid := do
  connect
  let newId ← match uuid with
    | some uuid => do
      let inserted ← createVertex uuid vertex.t
      if !inserted then throw (.duplicatedUuid uuid)
      pure uuid
    | none => createVertexFromType vertex.t
  setVertexPropertiesOf newId vertex.properties
  return newId

/-- `SchemaDb::set_vertex_properties`. -/
def setVertexProperties (id : Uuid) (properties : List (PropName × Value)) : Registry Unit := do
  connect
  setVertexPropertiesOf id properties

/-- `SchemaDb::set_edge_properties`; whether the edge could be created is not looked at. -/
def setEdgeProperties (key : EdgeKey) (properties : List (PropName × Value)) : Registry Unit := do
  connect
  let _ ← createEdge key
  setEdgePropertiesOf key properties

def schemaDefinitionKey (schemaId definitionId : Uuid) : EdgeKey :=
  { outboundId := schemaId, t := .schemaDefinition, inboundId := definitionId }

def schemaViewKey (schemaId viewId : Uuid) : EdgeKey :=
  { outboundId := schemaId, t := .schemaView, inboundId := viewId }

def versionProperties (crates : Crates) (version : Version) : List (PropName × Value) :=
  [(.version, .string (crates.showVersion version))]

/-! ## Reading -/

def ensureSchemaExists (id : Uuid) : Registry Unit := do
  connect
  let vertices ← getVertices id
  if vertices.isNone then throw (.noSchemaWithId id) else return ()

/-- The versions of a schema, with the vertices of their definitions. -/
def versionsOf (crates : Crates) (id : Uuid) :
    List (EdgeKey × Value) → Except RegistryError (List (Version × Uuid))
  | [] => .ok []
  | (key, value) :: rest =>
    match crates.versionOfValue value with
    | none => .error (.malformedError (.malformedSchemaVersion id))
    | some version => do
      let versions ← versionsOf crates id rest
      return (version, key.inboundId) :: versions

def getSchemaVersions (crates : Crates) (id : Uuid) : Registry (List (Version × Uuid)) := do
  connect
  let properties ← getEdgeProperties id .schemaDefinition .version
  ExceptT.mk (.ret (versionsOf crates id properties))

/-- `max_by_key` on the version: the last of the greatest elements. -/
def maxByVersion : List (Version × Uuid) → Option (Version × Uuid)
  | [] => none
  | first :: rest =>
    some (rest.foldl (fun best x => if (compare best.1 x.1).isGT then best else x) first)

def getLatestValidSchemaVersion (crates : Crates) (id : VersionedUuid) :
    Registry (Version × Uuid) := do
  let versions ← getSchemaVersions crates id.id
  match maxByVersion (versions.filter fun version => id.versionReq.accepts version.1) with
  | some version => return version
  | none => throw (.noVersionMatchesRequirement id)

def getSchemaDefinition (crates : Crates) (id : VersionedUuid) : Registry SchemaDefinition := do
  connect
  let (version, versionVertexId) ← getLatestValidSchemaVersion crates id
  match ← getVertexProperties versionVertexId .definition with
  | some value => return { version := version, definition := value }
  | none => throw (.noVersionMatchesRequirement id)

def getView (id : Uuid) : Registry View := do
  connect
  let properties ← getAllVertexProperties id
  match properties.filter fun vertex => vertex.t = .view with
  | none => throw (.noViewWithId id)
  | some vertex =>
    match View.fromProperties vertex.props with
    | none => throw (.malformedError (.malformedView id))
    | some view => return view

def getSchema (id : Uuid) : Registry Schema := do
  connect
  match ← getAllVertexProperties id with
  | none => throw (.noSchemaWithId id)
  | some vertex =>
    match Schema.fromProperties vertex.props with
    | none => throw (.malformedError (.malformedSchema id))
    | some schema => return schema

/-- The shape of `get_schema_topic`, `get_schema_query_address` and `get_schema_type`. -/
def getSchemaProperty {α : Type} (name : PropName) (ofValue : Value → Option α) (id : Uuid) :
    Registry α := do
  connect
  match ← getVertexProperties id name with
  | none => throw (.noSchemaWithId id)
  | some value =>
    match ofValue value with
    | none => throw (.malformedError (.malformedSchema id))
    | some a => return a

def getSchemaTopic : Uuid → Registry String := getSchemaProperty .schemaTopicName Value.asStr
def getSchemaQueryAddress : Uuid → Registry String :=
  getSchemaProperty .schemaQueryAddress Value.asStr
def getSchemaType : Uuid → Registry SchemaType := getSchemaProperty .schemaType SchemaType.ofValue

/-- A vertex with its identifier, read by one of the `from_properties`. -/
def decodeVertex {α : Type} (fromProperties : Props PropName Value → Option α)
    (malformed : Uuid → MalformedError) (entry : Uuid × Vertex) : Except RegistryError (Uuid × α) :=
  match fromProperties entry.2.props with
  | none => .error (.malformedError (malformed entry.1))
  | some a => .ok (entry.1, a)

def decodeName (entry : Uuid × Value) : Except RegistryError (Uuid × String) :=
  match entry.2.asStr with
  | none => .error (.malformedError (.malformedSchema entry.1))
  | some name => .ok (entry.1, name)

def decodeDefinitionEdge (crates : Crates) (edge : EdgeKey × Props PropName Value) :
    Except RegistryError SchemaDefinitionEdge :=
  match SchemaDefinitionEdge.fromProperties crates edge.1 edge.2 with
  | none => .error (.malformedError (.malformedSchemaVersion edge.1.outboundId))
  | some edge => .ok edge

def getAllSchemas : Registry (List (Uuid × Schema)) := do
  connect
  let allSchemas ← getAllVertexPropertiesOf .schema
  ExceptT.mk (.ret (allSchemas.mapM (decodeVertex Schema.fromProperties .malformedSchema)))

def getAllSchemaNames : Registry (List (Uuid × String)) := do
  connect
  let allNames ← getVertexPropertiesOf .schema .schemaName
  ExceptT.mk (.ret (allNames.mapM decodeName))

def getAllViewsOfSchema (schemaId : Uuid) : Registry (List (Uuid × View)) := do
  connect
  ensureSchemaExists schemaId
  let allViews ← getOutboundVertexProperties schemaId .schemaView
  ExceptT.mk (.ret (allViews.mapM (decodeVertex View.fromProperties .malformedView)))

/-! ## `build_full_schema` -/

/-- The object under `definitions`. -/
def definitionsOf : Value → Option (List (String × Value))
  | .object members => match members.lookup "definitions" with
    | some (.object defs) => some defs
    | _ => none
  | _ => none

/-- `object[key] = value` for a key that is there. -/
def setMember (key : String) (value : Value) (members : List (String × Value)) :
    List (String × Value) :=
  members.map fun member => if member.1 = key then (key, value) else member

def setDefinitions (schema : Value) (defs : List (String × Value)) : Value :=
  match schema with
  | .object members => .object (setMember "definitions" (.object defs) members)
  | schema => schema

def schemasToRetrieve (crates : Crates) (defs : List (String × Value)) : List (String × Uuid) :=
  defs.filterMap fun (key, value) =>
    value.asStr.bind fun text => (crates.parseUuid text).toOption.map fun id => (key, id)

def retrieveSchemas (crates : Crates) : List (String × Uuid) → List (String × Value) →
    Registry (List (String × Value))
  | [], defs => return defs
  | (key, id) :: rest, defs => do
    let schema ← getSchemaDefinition crates (.any id)
    retrieveSchemas crates rest (setMember key schema.definition defs)

def buildFullSchema (crates : Crates) (schema : Value) : Registry Definition := do
  let schema ← match definitionsOf schema with
    | some defs => do
      let defs ← retrieveSchemas crates (schemasToRetrieve crates defs) defs
      pure (setDefinitions schema defs)
    | none => pure schema
  if crates.compile schema then return { definition := schema } else throw .invalidSchema

/-! ## The operations -/

def addSchema (crates : Crates) (schema : NewSchema) (newId : Option Uuid) : Registry Uuid := do
  let (schema, definition) := schema.split
  let fullSchema ← buildFullSchema crates definition
  let newId ← createVertexWithProperties schema.vertex newId
  let newDefinitionVertexId ← createVertexWithProperties fullSchema.vertex none
  setEdgeProperties (schemaDefinitionKey newId newDefinitionVertexId)
    (versionProperties crates (.new 1 0 0))
  return newId

/-- The shape of the four `update_schema_*` operations. -/
def updateSchemaProperty (name : PropName) (id : Uuid) (value : String) : Registry Unit := do
  ensureSchemaExists id
  setVertexProperties id [(name, .string value)]

def updateSchemaName : Uuid → String → Registry Unit := updateSchemaProperty .schemaName
def updateSchemaTopic : Uuid → String → Registry Unit := updateSchemaProperty .schemaTopicName
def updateSchemaQueryAddress : Uuid → String → Registry Unit :=
  updateSchemaProperty .schemaQueryAddress
def updateSchemaType (id : Uuid) (newSchemaType : SchemaType) : Registry Unit :=
  updateSchemaProperty .schemaType id newSchemaType.text

def addNewVersionOfSchema (crates : Crates) (id : Uuid) (schema : NewSchemaVersion) :
    Registry Unit := do
  ensureSchemaExists id
  match maxByVersion (← getSchemaVersions crates id) with
  | some (maxVersion, _) =>
    if (compare maxVersion schema.version).isGE then
      throw (.newVersionMustBeGreatest id maxVersion)
  | none => pure ()
  let fullSchema ← buildFullSchema crates schema.definition
  let newDefinitionVertexId ← createVertexWithProperties fullSchema.vertex none
  setEdgeProperties (schemaDefinitionKey id newDefinitionVertexId)
    (versionProperties crates schema.version)

def validateView (crates : Crates) (view : String) : Registry Unit :=
  ExceptT.mk (.ret ((crates.parseJmespath view).mapError .invalidView))

def addViewToSchema (crates : Crates) (schemaId : Uuid) (view : View) (viewId : Option Uuid) :
    Registry Uuid := do
  ensureSchemaExists schemaId
  validateView crates view.jmespath
  let viewId ← createVertexWithProperties view.vertex viewId
  setEdgeProperties (schemaViewKey schemaId viewId) []
  return viewId

def updateView (crates : Crates) (id : Uuid) (view : ViewUpdate) : Registry View := do
  let oldView ← getView id
  match view.jmespath with
  | some jmespath => validateView crates jmespath
  | none => pure ()
  match view.name with
  | some name => setVertexProperties id [(.viewName, .string name)]
  | none => pure ()
  match view.jmespath with
  | some jmespath => setVertexProperties id [(.jmespath, .string jmespath)]
  | none => pure ()
  return oldView

/-! ## Import and export -/

def createVertices : List (Uuid × VertexData) → Registry Unit
  | [] => return ()
  | (id, vertex) :: rest => do
    let _ ← createVertexWithProperties vertex (some id)
    createVertices rest

def createEdges : List (EdgeKey × List (PropName × Value)) → Registry Unit
  | [] => return ()
  | (key, properties) :: rest => do
    setEdgeProperties key properties
    createEdges rest

/-- Nothing is imported into a database that has schemas. -/
def importAll (crates : Crates) (imported : DbExport) : Registry Unit := do
  let names ← getAllSchemaNames
  if names.isEmpty then
    createVertices (imported.schemas.map fun entry => (entry.1, entry.2.vertex))
    createVertices (imported.definitions.map fun entry => (entry.1, entry.2.vertex))
    createVertices (imported.views.map fun entry => (entry.1, entry.2.vertex))
    createEdges (imported.schemaDefinitions.map fun edge =>
      (schemaDefinitionKey edge.schemaId edge.definitionId, versionProperties crates edge.version))
    createEdges (imported.schemaViews.map fun edge => (schemaViewKey edge.schemaId edge.viewId, []))

def exportAll (crates : Crates) : Registry DbExport := do
  connect
  let allDefinitions ← getAllVertexPropertiesOf .definition
  let allSchemas ← getAllVertexPropertiesOf .schema
  let allViews ← getAllVertexPropertiesOf .view
  let allSchemaDefinitions ← getAllEdgeProperties .schemaDefinition
  let allSchemaViews ← getAllEdgeProperties .schemaView
  let definitions ← ExceptT.mk (.ret (allDefinitions.mapM
    (decodeVertex Definition.fromProperties .malformedDefinition)))
  let schemas ← ExceptT.mk (.ret (allSchemas.mapM
    (decodeVertex Schema.fromProperties .malformedSchema)))
  let views ← ExceptT.mk (.ret (allViews.mapM (decodeVertex View.fromProperties .malformedView)))
  let schemaDefinitions ← ExceptT.mk (.ret (allSchemaDefinitions.mapM
    (decodeDefinitionEdge crates)))
  return { schemas := schemas, definitions := definitions, views := views,
           schemaDefinitions := schemaDefinitions,
           schemaViews := allSchemaViews.map fun edge => SchemaViewEdge.fromProperties edge.1 }

end CommonDataLayer.SchemaRegistry
