import CommonDataLayer.SchemaRegistry.Records
import CommonDataLayer.SchemaRegistry.ReplicationEffect

/-! # The requests that read the registry

The remaining handlers of `SchemaRegistryImpl`, with the messages they answer. Identifiers, versions
and definitions are texts there. A map in a message is given by its entries.
-/
namespace CommonDataLayer.SchemaRegistry
open Interaction PropertyGraph
set_option autoImplicit false

/-- The crates that only the reads use. -/
structure RpcCrates extends Crates where
  parseVersionReq : String → Except String VersionReq
  /-- `serde_json::to_string`. -/
  serializeJson : Value → Except String String
  /-- The errors of `JSONSchema::validate`, for a schema that compiles. -/
  validate : (schema value : Value) → List String

namespace Message

structure Schema where
  name : String
  topic : String
  queryAddress : String
  schemaType : ℤ
  deriving DecidableEq, Repr

structure SchemaDefinition where
  version : String
  definition : String
  deriving DecidableEq, Repr

structure View where
  name : String
  jmespath : String
  deriving DecidableEq, Repr

def ofSchema (schema : SchemaRegistry.Schema) : Schema where
  name := schema.name
  topic := schema.kafkaTopic
  queryAddress := schema.queryAddress
  schemaType := schema.schemaType.toI32

def ofView (view : SchemaRegistry.View) : View where
  name := view.name
  jmespath := view.jmespath

/-- A map whose keys are identifiers. -/
def ofEntries {α β : Type} (message : α → β) (entries : List (Uuid × α)) : List (String × β) :=
  entries.map fun entry => (entry.1.toText, message entry.2)

end Message

def parseVersionReq (crates : RpcCrates) (req : String) : Except Status VersionReq :=
  (crates.parseVersionReq req).mapError (invalidArgument "Invalid version requirement provided: ")

def serializeJson (crates : RpcCrates) (json : Value) : Except Status String :=
  (crates.serializeJson json).mapError fun err =>
    { code := .internal, message := "Unable to serialize JSON: " ++ err }

namespace SchemaRegistryImpl
variable (crates : RpcCrates)

def getSchema (id versionReq : String) : Rpc Message.SchemaDefinition := do
  let id : VersionedUuid :=
    { id := ← parsed (parseUuid crates.toCrates id),
      versionReq := ← parsed (parseVersionReq crates versionReq) }
  let definition ← db crates.toCrates (getSchemaDefinition crates.toCrates id)
  return { version := crates.showVersion definition.version,
           definition := ← parsed (serializeJson crates definition.definition) }

def getSchemaMetadata (id : String) : Rpc Message.Schema := do
  let schemaId ← parsed (parseUuid crates.toCrates id)
  let schema ← db crates.toCrates (SchemaRegistry.getSchema schemaId)
  return Message.ofSchema schema

/-- The response is its `topic`. -/
def getSchemaTopic (id : String) : Rpc String := do
  let schemaId ← parsed (parseUuid crates.toCrates id)
  db crates.toCrates (SchemaRegistry.getSchemaTopic schemaId)

/-- The response is its `versions`. -/
def getSchemaVersions (id : String) : Rpc (List String) := do
  let schemaId ← parsed (parseUuid crates.toCrates id)
  let allVersions ← db crates.toCrates (SchemaRegistry.getSchemaVersions crates.toCrates schemaId)
  return allVersions.map fun version => crates.showVersion version.1

def getView (id : String) : Rpc Message.View := do
  let viewId ← parsed (parseUuid crates.toCrates id)
  let view ← db crates.toCrates (SchemaRegistry.getView viewId)
  return Message.ofView view

/-- The response is its `schemas`. -/
def getAllSchemas : Rpc (List (String × Message.Schema)) := do
  let schemas ← db crates.toCrates SchemaRegistry.getAllSchemas
  return Message.ofEntries Message.ofSchema schemas

/-- The response is its `names`. -/
def getAllSchemaNames : Rpc (List (String × String)) := do
  let names ← db crates.toCrates SchemaRegistry.getAllSchemaNames
  return Message.ofEntries id names

/-- The response is its `views`. -/
def getAllViewsOfSchema (id : String) : Rpc (List (String × Message.View)) := do
  let schemaId ← parsed (parseUuid crates.toCrates id)
  let views ← db crates.toCrates (SchemaRegistry.getAllViewsOfSchema schemaId)
  return Message.ofEntries Message.ofView views

/-- The response is its `errors`. -/
def validateValue (schemaId value : String) : Rpc (List String) := do
  let schemaId ← parsed (parseUuid crates.toCrates schemaId)
  let json ← parsed (parseJson crates.toCrates value)
  let fullSchema ← db crates.toCrates (getSchemaDefinition crates.toCrates (.any schemaId))
  if crates.compile fullSchema.definition then
    return crates.validate fullSchema.definition json
  else throw (RegistryError.status crates.toCrates .invalidSchema)

end SchemaRegistryImpl
end CommonDataLayer.SchemaRegistry
