import CommonDataLayer.Foundations.PropertyGraph
import CommonDataLayer.Utils.MessagingSystem

/-! # The data of the schema registry

The vertices and edges that the registry stores with their property names, the requests and events
that carry them, and its errors with their texts. The crates that read texts (UUIDs, versions,
JSON, JSON schemas, JMESPath) are the parameter `Crates`.

Versions follow the `semver` crate: precedence ignores the build metadata, and a version without a
pre-release part comes after those that have one.
-/
namespace CommonDataLayer.SchemaRegistry
open PropertyGraph Std
set_option autoImplicit false

/-! ## Versions -/

inductive Identifier where
  | numeric (n : ℕ)
  | alphaNumeric (text : String)
  deriving DecidableEq, Repr

namespace Identifier

def rank : Identifier → ℕ
  | numeric _ => 0
  | alphaNumeric _ => 1

def number : Identifier → ℕ
  | numeric n => n
  | alphaNumeric _ => 0

def text : Identifier → String
  | numeric _ => ""
  | alphaNumeric text => text

/-- Numeric identifiers come before alphanumeric ones. -/
instance : Ord Identifier where
  compare := compareLex (compareOn rank) (compareLex (compareOn number) (compareOn text))

instance : TransOrd Identifier := inferInstanceAs <| TransCmp (compareLex _ (compareLex _ _))

end Identifier

structure Version where
  major : ℕ
  minor : ℕ
  patch : ℕ
  pre : List Identifier
  build : List Identifier
  deriving DecidableEq, Repr

namespace Version

def new (major minor patch : ℕ) : Version :=
  { major := major, minor := minor, patch := patch, pre := [], build := [] }

instance : Ord Version where
  compare := compareLex (compareOn major) (compareLex (compareOn minor)
    (compareLex (compareOn patch) (compareLex (compareOn fun v => v.pre.isEmpty) (compareOn pre))))

instance : TransOrd Version :=
  inferInstanceAs <| TransCmp (compareLex _ (compareLex _ (compareLex _ (compareLex _ _))))

end Version

structure VersionReq where
  text : String
  accepts : Version → Bool

/-- No range at all: every version matches. -/
def VersionReq.any : VersionReq := { text := "*", accepts := fun _ => true }

structure VersionedUuid where
  id : Uuid
  versionReq : VersionReq

def VersionedUuid.any (id : Uuid) : VersionedUuid := { id := id, versionReq := .any }

/-! ## What is stored -/

inductive SchemaType where
  | documentStorage
  | timeseries
  deriving DecidableEq, Repr

namespace SchemaType

def text : SchemaType → String
  | documentStorage => "DocumentStorage"
  | timeseries => "Timeseries"

def ofName : String → Option SchemaType
  | "DocumentStorage" => some documentStorage
  | "Timeseries" => some timeseries
  | _ => none

/-- `serde_json::from_value::<SchemaType>`: the name of a variant, or an object that has it as its
only key. -/
def ofValue : Value → Option SchemaType
  | .string name => ofName name
  | .object [(name, .null)] => ofName name
  | _ => none

/-- The conversion from the `i32` of a request. -/
def ofI32 : ℤ → Option SchemaType
  | 0 => some documentStorage
  | 1 => some timeseries
  | _ => none

/-- `as i32`. -/
def toI32 : SchemaType → ℤ
  | documentStorage => 0
  | timeseries => 1

theorem ofI32_toI32 (t : SchemaType) : ofI32 t.toI32 = some t := by cases t <;> rfl

end SchemaType

inductive VertexType where
  | schema
  | definition
  | view
  deriving DecidableEq, Repr

inductive EdgeType where
  | schemaDefinition
  | schemaView
  deriving DecidableEq, Repr

namespace EdgeType

def text : EdgeType → String
  | schemaDefinition => "SCHEMA_DEFINITION"
  | schemaView => "SCHEMA_VIEW"

instance : Ord EdgeType where
  compare := compareOn text

instance : TransOrd EdgeType := inferInstanceAs <| TransCmp (compareOn _)

instance : LawfulEqOrd EdgeType where
  compare_self := ReflCmp.compare_self
  eq_of_compare {a b} h := by
    have htext : a.text = b.text := LawfulEqOrd.eq_of_compare h
    cases a <;> cases b <;> first | rfl | exact absurd htext (by decide)

end EdgeType

/-- The names of the properties; `VERSION` is on the edges. -/
inductive PropName where
  | schemaName
  | schemaTopicName
  | schemaQueryAddress
  | schemaType
  | definition
  | viewName
  | jmespath
  | version
  deriving DecidableEq, Repr

abbrev Graph : Type := PropertyGraph.Graph Uuid VertexType EdgeType PropName Value
abbrev Vertex : Type := PropertyGraph.Vertex VertexType PropName Value
abbrev EdgeKey : Type := PropertyGraph.EdgeKey Uuid EdgeType

structure Schema where
  name : String
  kafkaTopic : String
  queryAddress : String
  schemaType : SchemaType
  deriving DecidableEq, Repr

structure Definition where
  definition : Value

structure View where
  name : String
  jmespath : String
  deriving DecidableEq, Repr

def Schema.intoProperties (schema : Schema) : List (PropName × Value) :=
  [(.schemaName, .string schema.name), (.schemaTopicName, .string schema.kafkaTopic),
    (.schemaQueryAddress, .string schema.queryAddress),
    (.schemaType, .string schema.schemaType.text)]

def Definition.intoProperties (definition : Definition) : List (PropName × Value) :=
  [(.definition, definition.definition)]

def View.intoProperties (view : View) : List (PropName × Value) :=
  [(.viewName, .string view.name), (.jmespath, .string view.jmespath)]

/-- `Schema::from_properties`. -/
def Schema.fromProperties (props : Props PropName Value) : Option Schema := do
  let name ← props .schemaName >>= Value.asStr
  let kafkaTopic ← props .schemaTopicName >>= Value.asStr
  let queryAddress ← props .schemaQueryAddress >>= Value.asStr
  let schemaType ← props .schemaType >>= SchemaType.ofValue
  return { name := name, kafkaTopic := kafkaTopic, queryAddress := queryAddress,
           schemaType := schemaType }

/-- `Definition::from_properties`. -/
def Definition.fromProperties (props : Props PropName Value) : Option Definition := do
  let value ← props .definition
  return { definition := value }

/-- `View::from_properties`. -/
def View.fromProperties (props : Props PropName Value) : Option View := do
  let name ← props .viewName >>= Value.asStr
  let jmespath ← props .jmespath >>= Value.asStr
  return { name := name, jmespath := jmespath }

structure SchemaDefinitionEdge where
  schemaId : Uuid
  definitionId : Uuid
  version : Version

structure SchemaViewEdge where
  schemaId : Uuid
  viewId : Uuid

/-- What is exported. A map is given by its entries. -/
structure DbExport where
  schemas : List (Uuid × Schema)
  definitions : List (Uuid × Definition)
  views : List (Uuid × View)
  schemaDefinitions : List SchemaDefinitionEdge
  schemaViews : List SchemaViewEdge

/-- The vertex traits: a type and its properties. -/
structure VertexData where
  t : VertexType
  properties : List (PropName × Value)

def Schema.vertex (schema : Schema) : VertexData := ⟨.schema, schema.intoProperties⟩
def Definition.vertex (definition : Definition) : VertexData :=
  ⟨.definition, definition.intoProperties⟩
def View.vertex (view : View) : VertexData := ⟨.view, view.intoProperties⟩

/-! ## Requests and events -/

structure NewSchema where
  name : String
  definition : Value
  kafkaTopic : String
  queryAddress : String
  schemaType : SchemaType

/-- `NewSchema::vertex`. -/
def NewSchema.split (new : NewSchema) : Schema × Value :=
  ({ name := new.name, kafkaTopic := new.kafkaTopic, queryAddress := new.queryAddress,
     schemaType := new.schemaType }, new.definition)

def sampleNewSchema : NewSchema :=
  { name := "orders", definition := .object [], kafkaTopic := "topic", queryAddress := "address",
    schemaType := .documentStorage }

structure NewSchemaVersion where
  version : Version
  definition : Value

structure ViewUpdate where
  name : Option String
  jmespath : Option String
  deriving DecidableEq, Repr

structure SchemaDefinition where
  version : Version
  definition : Value

inductive ReplicationEvent where
  | addSchema (schema : NewSchema) (id : Uuid)
  | addSchemaVersion (id : Uuid) (newVersion : NewSchemaVersion)
  | updateSchemaMetadata (id : Uuid) (name topic queryAddress : Option String)
      (schemaType : Option SchemaType)
  | addViewToSchema (schemaId : Uuid) (view : View) (viewId : Uuid)
  | updateView (id : Uuid) (view : ViewUpdate)

/-- The key under which `send_messages_to_kafka` publishes an event. -/
def ReplicationEvent.key : ReplicationEvent → Uuid
  | addSchema _ id => id
  | addSchemaVersion id _ => id
  | updateSchemaMetadata id _ _ _ _ => id
  | addViewToSchema schemaId _ _ => schemaId
  | updateView id _ => id

/-! ## Third-party parsers and errors -/

structure Crates where
  parseUuid : String → Except String Uuid
  parseVersion : String → Except String Version
  showVersion : Version → String
  parseJson : String → Except String Value
  /-- `JSONSchema::compile` succeeds. -/
  compile : Value → Bool
  parseJmespath : String → Except String Unit
  parseEvent : String → Except String ReplicationEvent

/-- `serde_json::from_value::<Version>`. -/
def Crates.versionOfValue (crates : Crates) : Value → Option Version
  | .string text => (crates.parseVersion text).toOption
  | _ => none

/-- `from_properties` of the edge to a definition. -/
def SchemaDefinitionEdge.fromProperties (crates : Crates) (key : EdgeKey)
    (props : Props PropName Value) : Option SchemaDefinitionEdge := do
  let version ← props .version >>= crates.versionOfValue
  return { schemaId := key.outboundId, definitionId := key.inboundId, version := version }

/-- `from_properties` of the edge to a view, which has no properties. -/
def SchemaViewEdge.fromProperties (key : EdgeKey) : SchemaViewEdge :=
  { schemaId := key.outboundId, viewId := key.inboundId }

/-- The crates on a few texts, for runs on concrete input. -/
def sampleCrates : Crates where
  parseUuid text :=
    if text = Uuid.toText 1 then .ok 1
    else .error "invalid length: expected one of [36, 32], found 0"
  parseVersion text :=
    if text = "1.0.0" then .ok (.new 1 0 0)
    else if text = "2.0.0" then .ok (.new 2 0 0)
    else .error "Error parsing major identifier"
  showVersion version := s!"{version.major}.{version.minor}.{version.patch}"
  parseJson text :=
    if text = "\x7b\x7d" then .ok (.object [])
    else .error "EOF while parsing a value at line 1 column 0"
  compile
    | .object _ => true
    | .bool _ => true
    | _ => false
  parseJmespath text :=
    if text = "name" then .ok () else .error "Parse error: Unexpected nud token -- found Eof"
  parseEvent _ := .error "EOF while parsing a value at line 1 column 0"

inductive MalformedError where
  | malformedSchema (id : Uuid)
  | malformedDefinition (id : Uuid)
  | malformedSchemaVersion (id : Uuid)
  | malformedView (id : Uuid)
  deriving DecidableEq, Repr

def MalformedError.display : MalformedError → String
  | malformedSchema id => s!"Schema in database was malformed with id {id.toText}"
  | malformedDefinition id =>
    s!"Schema definition in database was malformed with id {id.toText}"
  | malformedSchemaVersion id =>
    s!"Schema version in database was malformed under schema with id {id.toText}"
  | malformedView id => s!"View in database was malformed for view with id {id.toText}"

/-- `RegistryError`, its variants that the modelled functions return. -/
inductive RegistryError where
  | noSchemaWithId (id : Uuid)
  | noViewWithId (id : Uuid)
  | duplicatedUuid (id : Uuid)
  | dbError (source : String)
  | connectionError (source : String)
  | noTopic (name : String)
  | mqError (text : String)
  | invalidSchema
  | invalidSchemaType
  | invalidView (text : String)
  | noVersionMatchesRequirement (id : VersionedUuid)
  | newVersionMustBeGreatest (schemaId : Uuid) (maxVersion : Version)
  | malformedError (source : MalformedError)

def RegistryError.display (crates : Crates) : RegistryError → String
  | noSchemaWithId id => s!"No schema found with id \"{id.toText}\""
  | noViewWithId id => s!"No view found with id \"{id.toText}\""
  | duplicatedUuid id => s!"Object with id \"{id.toText}\" already exists in database"
  | dbError source => s!"Error occurred while accessing sled database: {source}"
  | connectionError source => s!"Unable to connect to sled database: {source}"
  | noTopic name => s!"No topic found named \"{name}\""
  | mqError text => text
  | invalidSchema => "Given schema was invalid"
  | invalidSchemaType => "Given schema type is invalid"
  | invalidView text => s!"Given view was invalid: {text}"
  | noVersionMatchesRequirement id => s!"No version of schema with id {id.id.toText} matches " ++
      s!"the given requirement {id.versionReq.text}"
  | newVersionMustBeGreatest schemaId maxVersion => s!"New schema version for schema with id " ++
      s!"{schemaId.toText} must be greater than the current max {crates.showVersion maxVersion}"
  | malformedError source => source.display

end CommonDataLayer.SchemaRegistry
