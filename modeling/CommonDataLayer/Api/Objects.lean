import CommonDataLayer.Api.SchemaRecords
import CommonDataLayer.CommandService.Deliveries
import CommonDataLayer.QueryRouter.Handler
import CommonDataLayer.QueryService.ConcurrentQueries

/-! # The GraphQL queries for objects

`object`, `objects` and `schemaObjects` ask the query router over HTTP. It looks the schema up and asks
the query service at the address of the schema, which makes one `SELECT`. Each of the three programs
makes calls that the next one answers, and all the while others write to the tables.

* `object`, `objects`, `schemaObjects`: the queries.
* `Cluster`: the programs that answer the calls, and what is documented of the crates they use.
-/
namespace CommonDataLayer.Api.Objects
open Interaction Relation Postgres
open SchemaRegistry (Lists SchemaType)
open QueryRouter (SchemaInfo)
open QueryRouter.Handler (Bytes Entries HttpRequest Rejection)
open QueryService (Tables Replies Selects Tells newestOf newestWith)
set_option autoImplicit false

/-! ## The queries -/

structure CdlObject where
  objectId : Uuid
  data : Value

inductive FieldError where
  | reqwest (err : String)
  | json (err : String)
  deriving DecidableEq, Repr

inductive Call where
  /-- A request to the router at an address, and the bytes of the response, whatever its status. -/
  | send (addr : String) (request : HttpRequest)

abbrev Answer : Call → Type
  | .send _ _ => Except String Bytes

abbrev FieldResult (α : Type) : Type := ExceptT FieldError (Program Answer) α

/-- What `serde_json` reads from the bytes of a response. -/
structure Json where
  fromSlice : Bytes → Except String Value
  /-- `HashMap<Uuid, Value>`, in the order in which it is iterated over. -/
  readMap : Bytes → Except String (List (Uuid × Value))

def send (addr : String) (request : HttpRequest) : FieldResult Bytes :=
  ExceptT.mk ((Program.perform (Call.send addr request)).bind fun r => .ret (r.mapError .reqwest))

def orFail {α : Type} (convert : String → FieldError) (r : Except String α) : FieldResult α :=
  ExceptT.mk (.ret (r.mapError convert))

def objectsOf (values : List (Uuid × Value)) : List CdlObject :=
  values.map fun entry => ⟨entry.1, entry.2⟩

section Queries
variable (json : Json) (queryRouterAddr : String)

def singleRequest (objectId schemaId : Uuid) : HttpRequest where
  method := .post
  path := "/single/" ++ objectId.toText
  schemaId := some schemaId.toText
  -- `{}`
  body := [0x7b, 0x7d]

def multipleRequest (objectIds : List Uuid) (schemaId : Uuid) : HttpRequest where
  method := .get
  path := "/multiple/" ++ ",".intercalate (objectIds.map Uuid.toText)
  schemaId := some schemaId.toText
  body := []

def schemaRequest (schemaId : Uuid) : HttpRequest where
  method := .get
  path := "/schema"
  schemaId := some schemaId.toText
  body := []

def object (objectId schemaId : Uuid) : FieldResult CdlObject := do
  let bytes ← send queryRouterAddr (singleRequest objectId schemaId)
  let data ← orFail .json (json.fromSlice bytes)
  return ⟨objectId, data⟩

def objects (objectIds : List Uuid) (schemaId : Uuid) : FieldResult (List CdlObject) := do
  let bytes ← send queryRouterAddr (multipleRequest objectIds schemaId)
  let values ← orFail .reqwest (json.readMap bytes)
  return objectsOf values

def schemaObjects (schemaId : Uuid) : FieldResult (List CdlObject) := do
  let bytes ← send queryRouterAddr (schemaRequest schemaId)
  let values ← orFail .reqwest (json.readMap bytes)
  return objectsOf values

end Queries

/-! ## Who answers whom -/

/-- The entries of a map, each once and in any order. -/
structure Carries (entries : Entries) (values : QueryService.ValueMap) : Prop where
  nodup : (entries.map (·.1)).Nodup
  mem (key : String) (value : Bytes) : (key, value) ∈ entries ↔ values key = some value

/-- All that the answers depend on. -/
structure Cluster where
  /-- How others can change the tables between two calls. -/
  Changes : Tables → Tables → Prop
  /-- Some call may fail that crosses the network or asks a database. -/
  failing : Prop
  formats : QueryService.Formats
  crates : QueryRouter.Handler.Crates
  json : Json
  schemaInfo : Uuid → SchemaInfo
  /-- The text of the response to a rejected request. -/
  rejected : Rejection → Bytes

namespace Cluster
variable (cluster : Cluster)

/-- A query service that handles a request, and its response. -/
def Responds (addr : String) (handler : QueryService.Task QueryService.ValueMap) (tables : Tables)
    (answer : Except QueryService.Status Entries) (tables' : Tables) : Prop :=
  ∃ response, Interleaved cluster.Changes (Selects cluster.failing addr) handler.run tables response tables' ∧
    ((∃ e, response = .error e ∧ answer = .error e) ∨
      ∃ values, response = .ok values ∧ Replies cluster.failing (Carries · values) answer)

/-- What the calls of the router are answered; nothing is assumed of other requests. -/
def Serves : (q : QueryRouter.Handler.Call) → Tables → QueryRouter.Handler.Answer q → Tables → Prop
  | .getSchemaInfo schemaId, tables, answer, tables' => tables' = tables ∧
      Replies cluster.failing (· = cluster.schemaInfo schemaId) answer
  | .connect _ _, tables, answer, tables' => tables' = tables ∧
      Replies cluster.failing (fun _ => True) answer
  | .queryMultiple addr objectIds, tables, answer, tables' =>
    cluster.Responds addr (QueryService.queryMultiple cluster.formats objectIds) tables answer tables'
  | .queryBySchema addr schemaId, tables, answer, tables' =>
    cluster.Responds addr (QueryService.queryBySchema cluster.formats schemaId) tables answer tables'
  | _, tables, _, tables' => ReflTransGen cluster.Changes tables tables'

/-- The bytes of a response. -/
def reply : Except Rejection Bytes → Bytes
  | .ok bytes => bytes
  | .error rejection => cluster.rejected rejection

/-- The router handles a request of the API. -/
def Routes : (q : Call) → Tables → Answer q → Tables → Prop
  | .send _ request, tables, answer, tables' =>
    ∃ response, Interleaved cluster.Changes cluster.Serves
        (QueryRouter.Handler.serve cluster.crates request) tables response tables' ∧
      Replies cluster.failing (· = cluster.reply response) answer

/-- A document is read back from its text. -/
def Readable (v : Value) : Prop := cluster.crates.fromSlice (cluster.formats.toBytes v) = .ok v

/-- What the documentation of `uuid`, `serde_json` and `warp` says: texts are read back, and the response
to a rejected request is no JSON. -/
structure Documented : Prop where
  serviceUuid (id : Uuid) : cluster.formats.parseUuid id.toText = .ok id
  routerUuid (id : Uuid) : cluster.crates.parseUuid id.toText = .ok id
  emptyObject : cluster.crates.content [0x7b, 0x7d] = .ok (.object [])
  fromSlice (v : Value) : cluster.Readable v → cluster.json.fromSlice (cluster.formats.toBytes v) = .ok v
  readMap (values : List (Uuid × Value)) : (values.map (·.1)).Nodup → (∀ entry ∈ values, cluster.Readable entry.2) →
    ∃ bytes entries, cluster.crates.toVec (values.map fun entry => (entry.1.toText, entry.2)) = .ok bytes ∧
      cluster.json.readMap bytes = .ok entries ∧ entries.Perm values
  rejected (rejection : Rejection) : (∃ e, cluster.json.fromSlice (cluster.rejected rejection) = .error e) ∧
    ∃ e, cluster.json.readMap (cluster.rejected rejection) = .error e

/-- A command service stores a message, in the table of the query service at an address. -/
def Stores (json : SerdeJson) (tables tables' : Tables) : Prop :=
  ∃ addr msg, tables' = Function.update tables addr
    (CommandService.PostgresOutputPlugin.store json msg (tables addr)).2

/-- Only documents that can be read back come into the table of a service. -/
def StoresReadable (addr : String) (tables : Tables) : Prop :=
  ∀ later, ReflTransGen cluster.Changes tables later → ∀ row ∈ (later addr).rows, cluster.Readable row.payload

end Cluster

end CommonDataLayer.Api.Objects
