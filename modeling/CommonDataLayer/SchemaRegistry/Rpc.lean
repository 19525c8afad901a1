import CommonDataLayer.SchemaRegistry.Operations

/-! # The requests that change the registry, and the consumer of their events

The handlers of `SchemaRegistryImpl` for the five requests that write and for the two properties that
the query router reads, with the `Status` of their errors, and `consume_message`, which applies the
events that a Master has sent to the database of a Slave.
-/
namespace CommonDataLayer.SchemaRegistry
open Interaction
set_option autoImplicit false

/-! ## Statuses -/

inductive Code where
  | invalidArgument
  | notFound
  | internal
  deriving DecidableEq, Repr

structure Status where
  code : Code
  message : String
  deriving DecidableEq, Repr

/-- `From<RegistryError> for Status`. -/
def RegistryError.status (crates : Crates) (error : RegistryError) : Status :=
  let code := match error with
    | noTopic _ | noSchemaWithId _ | noViewWithId _ => Code.notFound
    | _ => Code.internal
  { code := code, message := error.display crates }

def invalidArgument (text : String) (err : String) : Status :=
  { code := .invalidArgument, message := text ++ err }

abbrev Rpc (α : Type) : Type := Fallible Status α

def parseVersion (crates : Crates) (req : String) : Except Status Version :=
  (crates.parseVersion req).mapError (invalidArgument "Invalid version provided: ")

def parseJson (crates : Crates) (json : String) : Except Status Value :=
  (crates.parseJson json).mapError (invalidArgument "Invalid JSON provided: ")

def parseUuid (crates : Crates) (id : String) : Except Status Uuid :=
  (crates.parseUuid id).mapError (invalidArgument "Failed to parse UUID: ")

def parseOptionalUuid (crates : Crates) (id : String) : Except Status (Option Uuid) :=
  if id.isEmpty then .ok none
  else ((crates.parseUuid id).mapError (invalidArgument "Failed to parse optional UUID: ")).map some

/-! ## Requests and responses -/

inductive Request where
  | addSchema (id name definition topic queryAddress : String) (schemaType : ℤ)
  | addSchemaVersion (id version definition : String)
  | updateSchemaMetadata (id : String) (name topic address : Option String)
      (schemaType : Option ℤ)
  | addViewToSchema (schemaId viewId name jmespath : String)
  | updateView (id : String) (name jmespath : Option String)

inductive Response where
  | id (id : String)
  | empty
  | view (name jmespath : String)
  deriving DecidableEq, Repr

/-! ## The handlers -/

namespace SchemaRegistryImpl
variable (crates : Crates)

/-- `?` on a database operation. -/
def db {α : Type} (x : Registry α) : Rpc α := onError (RegistryError.status crates) x

def parsed {α : Type} (r : Except Status α) : Rpc α := ExceptT.mk (.ret r)

def topicOrExchangeExists (name : String) : Rpc Bool :=
  db crates (tryCall (fun error : MessagingSystem.Error => .mqError error.display)
    (Program.perform (Call.topicOrExchangeExists name)))

def ensureTopic (topic : String) : Rpc Unit := do
  if !(← topicOrExchangeExists crates topic) then
    throw (RegistryError.status crates (.noTopic topic))

def replicateMessage (event : ReplicationEvent) : Rpc Unit :=
  ExceptT.mk ((Program.perform (Call.replicateMessage event)).bind fun _ => .ret (.ok ()))

/-- `if let Some(value) = value`. -/
def ifSome {ε α : Type} (value : Option α) (f : α → Fallible ε Unit) : Fallible ε Unit :=
  match value with
  | some value => f value
  | none => return ()

def addSchema (id name definition topic queryAddress : String) (schemaType : ℤ) :
    Rpc Response := do
  let schemaId ← parsed (parseOptionalUuid crates id)
  -- `request.schema_type()` takes an unknown number for the first type.
  let schemaType := (SchemaType.ofI32 schemaType).getD .documentStorage
  let definition ← parsed (parseJson crates definition)
  let newSchema : NewSchema :=
    { name := name, definition := definition, kafkaTopic := topic, queryAddress := queryAddress,
      schemaType := schemaType }
  ensureTopic crates newSchema.kafkaTopic
  let newId ← db crates (SchemaRegistry.addSchema crates newSchema schemaId)
  replicateMessage (.addSchema newSchema newId)
  return .id newId.toText

def addSchemaVersion (id version definition : String) : Rpc Response := do
  let schemaId ← parsed (parseUuid crates id)
  let version ← parsed (parseVersion crates version)
  let definition ← parsed (parseJson crates definition)
  let newVersion : NewSchemaVersion := { version := version, definition := definition }
  db crates (addNewVersionOfSchema crates schemaId newVersion)
  replicateMessage (.addSchemaVersion schemaId newVersion)
  return .empty

def updateSchemaMetadata (id : String) (name topic address : Option String)
    (schemaType : Option ℤ) : Rpc Response := do
  let schemaId ← parsed (parseUuid crates id)
  ifSome topic (ensureTopic crates)
  ifSome name fun name => db crates (updateSchemaName schemaId name)
  ifSome topic fun topic => db crates (updateSchemaTopic schemaId topic)
  ifSome address fun address => db crates (updateSchemaQueryAddress schemaId address)
  ifSome schemaType fun schemaType =>
    match SchemaType.ofI32 schemaType with
    | some schemaType => db crates (updateSchemaType schemaId schemaType)
    | none => throw (RegistryError.status crates .invalidSchemaType)
  replicateMessage (.updateSchemaMetadata schemaId name topic address none)
  return .empty

def addViewToSchema (schemaId viewId name jmespath : String) : Rpc Response := do
  let schemaId ← parsed (parseUuid crates schemaId)
  let replicatedViewId ← parsed (parseOptionalUuid crates viewId)
  let view : View := { name := name, jmespath := jmespath }
  let viewId ← db crates (SchemaRegistry.addViewToSchema crates schemaId view replicatedViewId)
  replicateMessage (.addViewToSchema schemaId view viewId)
  return .id viewId.toText

def updateView (id : String) (name jmespath : Option String) : Rpc Response := do
  let viewId ← parsed (parseUuid crates id)
  let view : ViewUpdate := { name := name, jmespath := jmespath }
  let oldView ← db crates (SchemaRegistry.updateView crates viewId view)
  replicateMessage (.updateView viewId view)
  return .view oldView.name oldView.jmespath

def handle : Request → Rpc Response
  | .addSchema id name definition topic queryAddress schemaType =>
    addSchema crates id name definition topic queryAddress schemaType
  | .addSchemaVersion id version definition => addSchemaVersion crates id version definition
  | .updateSchemaMetadata id name topic address schemaType =>
    updateSchemaMetadata crates id name topic address schemaType
  | .addViewToSchema schemaId viewId name jmespath =>
    addViewToSchema crates schemaId viewId name jmespath
  | .updateView id name jmespath => updateView crates id name jmespath

/-- The response is its `address`. -/
def getSchemaQueryAddress (id : String) : Rpc String := do
  let schemaId ← parsed (parseUuid crates id)
  db crates (SchemaRegistry.getSchemaQueryAddress schemaId)

/-- The response is its `schema_type`, a number. -/
def getSchemaType (id : String) : Rpc ℤ := do
  let schemaId ← parsed (parseUuid crates id)
  let schemaType ← db crates (SchemaRegistry.getSchemaType schemaId)
  return schemaType.toI32

end SchemaRegistryImpl

/-! ## The consumer of a Slave -/

namespace Slave
open SchemaRegistryImpl (ifSome)
variable (crates : Crates)

def ofRegistry {α : Type} (x : Registry α) : Fallible AnyhowError α :=
  onError (fun error => .root (error.display crates)) x

def ack : Fallible AnyhowError Unit :=
  onError (fun error : MessagingSystem.Error => .root error.display)
    (ExceptT.mk (Program.perform Call.ack))

def apply : ReplicationEvent → Fallible AnyhowError Unit
  | .addSchema schema id => do
    let _ ← ofRegistry crates (addSchema crates schema (some id))
  | .addSchemaVersion id newVersion => ofRegistry crates (addNewVersionOfSchema crates id newVersion)
  | .addViewToSchema schemaId view viewId => do
    let _ ← ofRegistry crates (addViewToSchema crates schemaId view (some viewId))
  | .updateSchemaMetadata id name topic queryAddress schemaType => do
    ifSome name fun name => ofRegistry crates (updateSchemaName id name)
    ifSome topic fun topic => ofRegistry crates (updateSchemaTopic id topic)
    ifSome queryAddress fun queryAddress =>
      ofRegistry crates (updateSchemaQueryAddress id queryAddress)
    ifSome schemaType fun schemaType => ofRegistry crates (updateSchemaType id schemaType)
  | .updateView id view => do
    let _ ← ofRegistry crates (updateView crates id view)

def consumeMessage (message : MessagingSystem.CommunicationMessage) : Fallible AnyhowError Unit := do
  let payload ← ExceptT.mk (.ret (message.payload.mapError fun error => .root error.display))
  let event ← ExceptT.mk (.ret (withContext "Payload deserialization failed"
    ((crates.parseEvent payload).mapError .root)))
  apply crates event
  ack

end Slave
end CommonDataLayer.SchemaRegistry
