import CommonDataLayer.QueryRouter.Cache
import CommonDataLayer.QueryServiceTs.Victoria

/-! # The handlers of the query router

The four handlers and the routes that lead to them, as programs over the calls that leave the router:
the schema cache (`SchemaRegistryCache`, a program of its own), and the clients of the two query
services, which connect for every request. A rejection is answered by `warp` with a text.
-/
namespace CommonDataLayer.QueryRouter.Handler
open Interaction
open SchemaRegistry (SchemaType)
set_option autoImplicit false

abbrev Bytes : Type := List UInt8

/-! ## The body of a request -/

inductive Body where
  | range (start stop step : String)
  | raw (rawStatement : String)
  | empty
  deriving DecidableEq, Repr

/-- A field of type `String`, which may be given once. -/
def stringField (members : List (String × Value)) (name : String) : Option String :=
  match members.filter fun member => member.1 = name with
  | [(_, .string text)] => some text
  | _ => none

/-- The enumeration is untagged: the variants are tried in order, fields that a variant does not have are
ignored, and only an object is any of them. -/
def Body.ofContent : Value → Except String Body
  | .object members =>
    match stringField members "from", stringField members "to", stringField members "step" with
    | some start, some stop, some step => .ok (.range start stop step)
    | _, _, _ => match stringField members "raw_statement" with
      | some rawStatement => .ok (.raw rawStatement)
      | none => .ok .empty
  | _ => .error "data did not match any variant of untagged enum Body"

/-! ## The calls -/

/-- `HashMap<String, Vec<u8>>`, in the order in which it is iterated over. -/
abbrev Entries : Type := List (String × Bytes)

inductive Error where
  | clientError (source : ClientError)
  | jsonError (err : String)
  | singleQueryMissingValue
  | rawQueryMissingValue
  | wrongValueFormat
  deriving DecidableEq, Repr

def Error.ofCache : QueryRouter.Error → Error
  | .clientError source => .clientError source

inductive Service where
  | documents
  | timeseries

/-- `service` in the messages of `ClientError`. -/
def Service.name : Service → String
  | documents => "query service"
  | timeseries => "timeseries query service"

inductive Call where
  | getSchemaInfo (schemaId : Uuid)
  | connect (service : Service) (addr : String)
  | queryMultiple (addr : String) (objectIds : List String)
  | queryBySchema (addr schemaId : String)
  | queryRaw (service : Service) (addr rawStatement : String)
  | timeseriesByRange (addr : String) (range : QueryServiceTs.Range)
  | timeseriesBySchema (addr schemaId : String)

abbrev Answer : Call → Type
  | .getSchemaInfo _ => Except QueryRouter.Error SchemaInfo
  | .connect _ _ => Except String Unit
  | .queryMultiple _ _ => Except QueryService.Status Entries
  | .queryBySchema _ _ => Except QueryService.Status Entries
  | .queryRaw _ _ _ => Except QueryService.Status Bytes
  | .timeseriesByRange _ _ => Except QueryService.Status String
  | .timeseriesBySchema _ _ => Except QueryService.Status String

abbrev Task (α : Type) : Type := ExceptT Error (Program Answer) α

/-- `?` on what a call answers, after `map_err`. -/
def tryCall {α ε : Type} (convert : ε → Error) (call : Program Answer (Except ε α)) : Task α :=
  ExceptT.mk (call.bind fun r => .ret (r.mapError convert))

/-- The status of a service, as `rpc` keeps it. -/
def statusOf (status : QueryService.Status) : SchemaRegistry.Status :=
  ⟨match status.code with
    | .invalidArgument => .invalidArgument
    | .internal => .internal, status.message⟩

def connect (service : Service) (addr : String) : Task Unit :=
  tryCall (fun err => .clientError (.connectionError service.name err))
    (Program.perform (Call.connect service addr))

/-- A function of `rpc::query_service` or `rpc::query_service_ts`: it connects and makes one request. -/
def query {α : Type} (service : Service) (addr : String)
    (call : Program Answer (Except QueryService.Status α)) : Task α := do
  connect service addr
  tryCall (fun err => .clientError (.queryError service.name (statusOf err))) call

def getSchemaInfo (schemaId : Uuid) : Task SchemaInfo :=
  tryCall .ofCache (Program.perform (Call.getSchemaInfo schemaId))

/-! ## The handlers -/

/-- The crates `uuid` and `serde_json`. -/
structure Crates where
  parseUuid : String → Except String Uuid
  /-- What the fields of a body are read from. -/
  content : Bytes → Except String Value
  fromSlice : Bytes → Except String Value
  toVec : List (String × Value) → Except String Bytes

section Handlers
variable (crates : Crates)

def orFail {α : Type} (r : Except Error α) : Task α := ExceptT.mk (.ret r)

def byteMapToJsonMap (map : Entries) : Except Error (List (String × Value)) :=
  map.mapM fun entry => do
    let value ← (crates.fromSlice entry.2).mapError .jsonError
    return (entry.1, value)

def querySingle (objectId schemaId : Uuid) (requestBody : Body) : Task Bytes := do
  let (address, schemaType) ← getSchemaInfo schemaId
  match schemaType, requestBody with
  | .documentStorage, _ =>
    let values ← query .documents address
      (Program.perform (Call.queryMultiple address [objectId.toText]))
    match values.lookup objectId.toText with
    | some value => return value
    | none => throw .singleQueryMissingValue
  | .timeseries, .range start stop step =>
    let timeseries ← query .timeseries address (Program.perform (Call.timeseriesByRange address
      ⟨schemaId.toText, objectId.toText, start, stop, step⟩))
    return timeseries.toUTF8.toList
  | .timeseries, .empty => throw .singleQueryMissingValue
  | _, .raw _ => throw .wrongValueFormat

/-- `str::split`. -/
def split (sep : Char) (text : String) : List String := (text.toList.splitOn sep).map String.ofList

/-- `serde_json::to_vec(&byte_map_to_json_map(values)?)`. -/
def jsonReply (values : Entries) : Task Bytes := do
  let map ← orFail (byteMapToJsonMap crates values)
  orFail ((crates.toVec map).mapError .jsonError)

def queryMultiple (objectIds : String) (schemaId : Uuid) : Task Bytes := do
  let (address, _) ← getSchemaInfo schemaId
  let values ← query .documents address (Program.perform (Call.queryMultiple address (split ',' objectIds)))
  jsonReply crates values

def queryBySchema (schemaId : Uuid) : Task Bytes := do
  let (address, schemaType) ← getSchemaInfo schemaId
  match schemaType with
  | .documentStorage =>
    let values ← query .documents address (Program.perform (Call.queryBySchema address schemaId.toText))
    jsonReply crates values
  | .timeseries =>
    let timeseries ← query .timeseries address
      (Program.perform (Call.timeseriesBySchema address schemaId.toText))
    return timeseries.toUTF8.toList

def queryRaw (schemaId : Uuid) (requestBody : Body) : Task Bytes := do
  let (address, schemaType) ← getSchemaInfo schemaId
  match requestBody, schemaType with
  | .raw rawStatement, .documentStorage =>
    query .documents address (Program.perform (Call.queryRaw .documents address rawStatement))
  | .raw rawStatement, .timeseries =>
    query .timeseries address (Program.perform (Call.queryRaw .timeseries address rawStatement))
  | .empty, _ => throw .rawQueryMissingValue
  | .range _ _ _, _ => throw .wrongValueFormat

/-! ## The routes -/

inductive Method where
  | get
  | post
  deriving DecidableEq, Repr

structure HttpRequest where
  method : Method
  path : String
  /-- The header `SCHEMA_ID`. -/
  schemaId : Option String
  body : Bytes

inductive Rejection where
  /-- No route, or a filter of it, takes the request. -/
  | filter
  | custom (error : Error)
  deriving DecidableEq, Repr

def segments (path : String) : List String := (split '/' path).drop 1

def schemaIdFilter (request : HttpRequest) : Option Uuid :=
  request.schemaId.bind fun text => (crates.parseUuid text).toOption

/-- At most 32 KiB, of JSON. -/
def bodyFilter (request : HttpRequest) : Option Body :=
  if request.body.length ≤ 1024 * 32 then
    ((crates.content request.body).bind Body.ofContent).toOption
  else none

def routes (request : HttpRequest) : Option (Task Bytes) :=
  match request.method, segments request.path with
  | .post, ["single", objectId] => do
    let objectId ← (crates.parseUuid objectId).toOption
    let schemaId ← schemaIdFilter crates request
    let body ← bodyFilter crates request
    return querySingle objectId schemaId body
  | .post, ["raw"] => do
    let schemaId ← schemaIdFilter crates request
    let body ← bodyFilter crates request
    return queryRaw schemaId body
  | .get, ["multiple", objectIds] => do
    -- a segment that is a parameter is not empty
    guard (objectIds ≠ "")
    let schemaId ← schemaIdFilter crates request
    return queryMultiple crates objectIds schemaId
  | .get, ["schema"] => do
    let schemaId ← schemaIdFilter crates request
    return queryBySchema crates schemaId
  | _, _ => none

def serve (request : HttpRequest) : Program Answer (Except Rejection Bytes) :=
  match routes crates request with
  | none => .ret (.error .filter)
  | some task => task.run.bind fun r => .ret (r.mapError .custom)

end Handlers
end CommonDataLayer.QueryRouter.Handler
