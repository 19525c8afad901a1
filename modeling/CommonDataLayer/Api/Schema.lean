import CommonDataLayer.SchemaRegistry.RpcReads

/-! # Schemas and views in the GraphQL API

The queries and mutations about schemas, as programs over calls of the schema registry, and the
fields of a schema that are calls themselves. The client of the registry has a status for every
request that fails. `HashMap`s are iterated in some order (`MapOrder`).

`serve` answers the calls from one database.
-/
namespace CommonDataLayer.Api.Registry
open Interaction SchemaRegistry
set_option autoImplicit false

/-! ## Types -/

inductive SchemaType where
  | documentStorage
  | timeseries
  deriving DecidableEq, Repr

namespace SchemaType

/-- `FromPrimitive`. -/
def fromI32 : ℤ → Option SchemaType
  | 0 => some documentStorage
  | 1 => some timeseries
  | _ => none

/-- `ToPrimitive`. -/
def toI32 : SchemaType → ℤ
  | documentStorage => 0
  | timeseries => 1

end SchemaType

structure Schema where
  id : Uuid
  name : String
  topic : String
  queryAddress : String
  schemaType : SchemaType
  deriving DecidableEq, Repr

structure Definition where
  definition : String
  version : String
  deriving DecidableEq, Repr

structure View where
  id : Uuid
  name : String
  expression : String
  deriving DecidableEq, Repr

structure NewSchema where
  name : String
  queryAddress : String
  topic : String
  definition : String
  schemaType : SchemaType

structure NewView where
  name : String
  expression : String

structure NewVersion where
  version : String
  definition : String

structure UpdateSchema where
  name : Option String
  queryAddress : Option String
  topic : Option String
  schemaType : Option SchemaType

structure UpdateView where
  name : Option String
  expression : Option String

/-! ## Errors and calls -/

/-- `rpc::error::ClientError`. -/
inductive ClientError where
  | connectionError (source : String)
  | queryError (source : Status)

/-- `api::error::Error`, its variants for the registry. -/
inductive Error where
  | invalidUuid (text : String)
  | invalidSchemaType (schemaType : ℤ)

/-- The errors that become a `FieldError`. -/
inductive FieldError where
  | client (error : ClientError)
  | error (error : Error)
  | uuid (text : String)

inductive Call where
  | connect
  | write (request : Request)
  | getSchema (id versionReq : String)
  | getSchemaMetadata (id : String)
  | getSchemaVersions (id : String)
  | getView (id : String)
  | getAllSchemas
  | getAllViewsOfSchema (id : String)

abbrev Answer : Call → Type
  | .connect => Except String Unit
  | .write _ => Except Status Response
  | .getSchema _ _ => Except Status Message.SchemaDefinition
  | .getSchemaMetadata _ => Except Status Message.Schema
  | .getSchemaVersions _ => Except Status (List String)
  | .getView _ => Except Status Message.View
  | .getAllSchemas => Except Status (List (String × Message.Schema))
  | .getAllViewsOfSchema _ => Except Status (List (String × Message.View))

abbrev FieldResult (α : Type) : Type := ExceptT FieldError (Program Answer) α

def connectToRegistry : FieldResult Unit :=
  ExceptT.mk ((Program.perform Call.connect).bind fun r =>
    .ret (r.mapError fun source => .client (.connectionError source)))

/-- `map_err(registry_error)?`. -/
def registry {α : Type} (call : Program Answer (Except Status α)) : FieldResult α :=
  ExceptT.mk (call.bind fun r => .ret (r.mapError fun source => .client (.queryError source)))

def orFail {α ε : Type} (convert : ε → FieldError) (r : Except ε α) : FieldResult α :=
  ExceptT.mk (.ret (r.mapError convert))

/-- The field `id` of the answer. -/
def idOf : Response → String
  | .id id => id
  | _ => ""

section Functions
variable (crates : RpcCrates)

/-! ## `utils.rs` -/

def schemaOfMessage (id : Uuid) (schema : Message.Schema) : Except Error Schema :=
  match SchemaType.fromI32 schema.schemaType with
  | some schemaType => .ok { id := id, name := schema.name, topic := schema.topic,
                             queryAddress := schema.queryAddress, schemaType := schemaType }
  | none => .error (.invalidSchemaType schema.schemaType)

def viewOfMessage (id : Uuid) (view : Message.View) : View where
  id := id
  name := view.name
  expression := view.jmespath

def getView (id : Uuid) : FieldResult View := do
  let view ← registry (Program.perform (Call.getView id.toText))
  return viewOfMessage id view

def getSchema (id : Uuid) : FieldResult Schema := do
  let schema ← registry (Program.perform (Call.getSchemaMetadata id.toText))
  orFail .error (schemaOfMessage id schema)

/-! ## Queries -/

def parseId (id : String) : Except Error Uuid := (crates.parseUuid id).mapError .invalidUuid

def schemaOfEntry (entry : String × Message.Schema) : Except Error Schema := do
  schemaOfMessage (← parseId crates entry.1) entry.2

def viewOfEntry (entry : String × Message.View) : Except Error View := do
  return viewOfMessage (← parseId crates entry.1) entry.2

def schema (id : Uuid) : FieldResult Schema := do
  connectToRegistry
  getSchema id

def schemas : FieldResult (List Schema) := do
  connectToRegistry
  let schemas ← registry (Program.perform Call.getAllSchemas)
  orFail .error (schemas.mapM (schemaOfEntry crates))

def view (id : Uuid) : FieldResult View := do
  connectToRegistry
  getView id

/-! ## The fields of a schema -/

def definition (id : Uuid) (version : String) : FieldResult Definition := do
  connectToRegistry
  let schemaDef ← registry (Program.perform (Call.getSchema id.toText version))
  return { version := schemaDef.version, definition := schemaDef.definition }

/-- The loop of `definitions`. -/
def definitionsOf (id : String) : List String → FieldResult (List Definition)
  | [] => return []
  | version :: versions => do
    let schemaDef ← registry (Program.perform (Call.getSchema id ("=" ++ version)))
    let definitions ← definitionsOf id versions
    return { version := schemaDef.version, definition := schemaDef.definition } :: definitions

def definitions (id : Uuid) : FieldResult (List Definition) := do
  connectToRegistry
  let versions ← registry (Program.perform (Call.getSchemaVersions id.toText))
  definitionsOf id.toText versions

def views (id : Uuid) : FieldResult (List View) := do
  connectToRegistry
  let views ← registry (Program.perform (Call.getAllViewsOfSchema id.toText))
  orFail .error (views.mapM (viewOfEntry crates))

/-! ## Mutations -/

def addSchema (new : NewSchema) : FieldResult Schema := do
  connectToRegistry
  let response ← registry (Program.perform (Call.write (.addSchema "" new.name new.definition new.topic
    new.queryAddress new.schemaType.toI32)))
  let id ← orFail .uuid (crates.parseUuid (idOf response))
  return { id := id, name := new.name, queryAddress := new.queryAddress, topic := new.topic,
           schemaType := new.schemaType }

def addSchemaDefinition (schemaId : Uuid) (newVersion : NewVersion) : FieldResult Definition := do
  connectToRegistry
  let _ ← registry (Program.perform (Call.write (.addSchemaVersion schemaId.toText newVersion.version
    newVersion.definition)))
  return { definition := newVersion.definition, version := newVersion.version }

def addView (schemaId : Uuid) (newView : NewView) : FieldResult View := do
  connectToRegistry
  let response ← registry (Program.perform (Call.write (.addViewToSchema schemaId.toText ""
    newView.name newView.expression)))
  let id ← orFail .uuid (crates.parseUuid (idOf response))
  return { id := id, name := newView.name, expression := newView.expression }

def updateView (id : Uuid) (update : UpdateView) : FieldResult View := do
  connectToRegistry
  let _ ← registry (Program.perform (Call.write (.updateView id.toText update.name update.expression)))
  getView id

def updateSchema (id : Uuid) (update : UpdateSchema) : FieldResult Schema := do
  connectToRegistry
  let _ ← registry (Program.perform (Call.write (.updateSchemaMetadata id.toText update.name
    update.topic update.queryAddress (update.schemaType.map SchemaType.toI32))))
  getSchema id

end Functions

/-! ## One registry -/

/-- The order in which a map is iterated. -/
structure MapOrder where
  order : {α : Type} → List (String × α) → List (String × α)
  perm : ∀ {α : Type} (entries : List (String × α)), (order entries).Perm entries

/-- Answers one call, with the database to itself. -/
def serve (broker : Broker) (crates : RpcCrates) (maps : MapOrder) :
    (call : Call) → World → Answer call × World
  | .connect, w => (.ok (), w)
  | .write request, w => SchemaRegistry.run broker (SchemaRegistryImpl.handle crates.toCrates request) w
  | .getSchema id versionReq, w =>
    SchemaRegistry.run broker (SchemaRegistryImpl.getSchema crates id versionReq) w
  | .getSchemaMetadata id, w =>
    SchemaRegistry.run broker (SchemaRegistryImpl.getSchemaMetadata crates id) w
  | .getSchemaVersions id, w =>
    SchemaRegistry.run broker (SchemaRegistryImpl.getSchemaVersions crates id) w
  | .getView id, w => SchemaRegistry.run broker (SchemaRegistryImpl.getView crates id) w
  | .getAllSchemas, w =>
    let (r, w) := SchemaRegistry.run broker (SchemaRegistryImpl.getAllSchemas crates) w
    (r.map maps.order, w)
  | .getAllViewsOfSchema id, w =>
    let (r, w) := SchemaRegistry.run broker (SchemaRegistryImpl.getAllViewsOfSchema crates id) w
    (r.map maps.order, w)

end CommonDataLayer.Api.Registry
