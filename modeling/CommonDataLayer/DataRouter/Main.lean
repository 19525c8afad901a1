import CommonDataLayer.Utils.MessagingSystem
import CommonDataLayer.Utils.ParallelTaskQueue

/-! # The data router

`handleMessage` and the functions it calls, as programs over the calls that leave them: the clock,
the topic cache, the schema registry, the broker and the end of the process. The cache belongs to
a third-party crate and the registry is another process, so nothing is assumed of what they answer.
Bytes that are published are kept as what was serialised (`Payload`). Logs and counters are left
out.

`spawnedTask` is the closure given to `TaskLimiter::run`. It maps `acquire_permit` over the order
group, which builds a future, and awaits `handle_message`; the future stays in `_guard`, so none
of its calls is part of the task.
-/
namespace CommonDataLayer.DataRouter
open Interaction MessagingSystem
set_option autoImplicit false

/-- What is published: the serialised message of an entry, or the debug text of an error. -/
inductive Payload where
  | insert (message : BorrowedInsertMessage)
  | report (error : AnyhowError)
  deriving DecidableEq, Repr

inductive Call where
  | lock (call : ParallelTaskQueue.Call)
  | currentTimestamp
  /-- Under the lock of the cache: `get_mut`, cloned. -/
  | cacheGetMut (schemaId : Uuid)
  | connect (schemaRegistryAddr : String)
  | getSchemaTopic (id : String)
  | cacheInsert (schemaId : Uuid) (topic : String)
  | publishMessage (topicOrExchange key : String) (payload : Payload)
  | ack
  | abort

abbrev Answer : Call → Type
  | .lock call => ParallelTaskQueue.Answer call
  | .currentTimestamp => ℤ
  | .cacheGetMut _ => Option String
  | .connect _ => Except String Unit
  | .getSchemaTopic _ => Except String String
  | .cacheInsert _ _ => Unit
  | .publishMessage _ _ _ => Except Error Unit
  | .ack => Except Error Unit
  | .abort => Empty

abbrev Task (α : Type) : Type := Program Answer α

/-- `anyhow::Result`. -/
abbrev Result (α : Type) : Type := Except AnyhowError α

structure Config where
  errorTopicOrExchange : String
  schemaRegistryAddr : String

def serviceName : String := "data-router"

/-! ## The calls -/

def currentTimestamp : Task ℤ := Program.perform Call.currentTimestamp
def cacheGetMut (schemaId : Uuid) : Task (Option String) :=
  Program.perform (Call.cacheGetMut schemaId)
def connect (addr : String) : Task (Except String Unit) := Program.perform (Call.connect addr)
def requestSchemaTopic (id : String) : Task (Except String String) :=
  Program.perform (Call.getSchemaTopic id)
def cacheInsert (schemaId : Uuid) (topic : String) : Task Unit :=
  Program.perform (Call.cacheInsert schemaId topic)
def publishMessage (topic key : String) (payload : Payload) : Task (Except Error Unit) :=
  Program.perform (Call.publishMessage topic key payload)
def ack : Task (Except Error Unit) := Program.perform Call.ack
def abort {α : Type} : Task α := .call Call.abort Empty.elim

/-! ## The functions -/

def sendMessage (topicName key : String) (payload : Payload) : Task Unit := do
  match ← publishMessage topicName key payload with
  | .error _ => abort
  | .ok () => return ()

def getSchemaTopic (config : Config) (schemaId : Uuid) : Task (Result String) := do
  match ← cacheGetMut schemaId with
  | some topic => return .ok topic
  | none =>
    match ← connect config.schemaRegistryAddr with
    | .error e => return .error (.root e)
    | .ok () =>
      match ← requestSchemaTopic schemaId.toText with
      | .error e => return .error (.root e)
      | .ok topic =>
        cacheInsert schemaId topic
        return .ok topic

def route (config : Config) (messageKey : String) (event : DataRouterInsertMessage) :
    Task (Result Unit) := do
  let now ← currentTimestamp
  let payload : BorrowedInsertMessage :=
    { objectId := event.objectId, schemaId := event.schemaId, timestamp := now, data := event.data }
  match ← getSchemaTopic config payload.schemaId with
  | .error e => return .error e
  | .ok topicName =>
    sendMessage topicName messageKey (.insert payload)
    return .ok ()

/-- The loop over the entries of a multimessage; `result` is the error of the last one that
failed. -/
def routeEntries (config : Config) (messageKey : String) :
    List DataRouterInsertMessage → Result Unit → Task (Result Unit)
  | [], result => return result
  | entry :: rest, result => do
    match withContext "Tried to send message and failed" (← route config messageKey entry) with
    | .error e => routeEntries config messageKey rest (.error e)
    | .ok () => routeEntries config messageKey rest result

/-- What a message asks for, before anything is routed. -/
inductive Request where
  | multi (entries : List DataRouterInsertMessage)
  | single (entry : DataRouterInsertMessage)

def payloadText (message : CommunicationMessage) : Result String :=
  message.payload.mapError fun e => .root e.display

/-- A text of `serde_json`, its error under a context. -/
def parsed {α : Type} (text : String) : Except String α → Result α
  | .ok a => .ok a
  | .error e => withContext text (.error (.root e))

def parseRequest (json : SerdeJson) (message : CommunicationMessage) :
    Result Request := do
  let text ← payloadText message
  let jsonSomething ← parsed "Payload deserialization failed" (json.value text)
  if jsonSomething.isArray then
    let maybeArray ← parsed "Payload deserialization failed, message is not a valid cdl message "
      (json.routerMessages text)
    return .multi maybeArray
  else
    let owned ← parsed "Payload deserialization failed, message is not a valid cdl message"
      (json.routerMessage text)
    return .single owned

def routeRequest (config : Config) (messageKey : String) : Request → Task (Result Unit)
  | .multi entries => routeEntries config messageKey entries (.ok ())
  | .single entry => do
    return withContext "Tried to send message and failed" (← route config messageKey entry)

def messageKey (message : CommunicationMessage) : String := (getOrderGroupId message).getD ""

/-- The report of a failure, if there was one, and the acknowledgement. -/
def finishMessage (config : Config) (result : Result Unit) : Task Unit := do
  match result with
  | .error error => sendMessage config.errorTopicOrExchange serviceName (.report error)
  | .ok () => pure ()
  match ← ack with
  | .error _ => abort
  | .ok () => return ()

def handleMessage (json : SerdeJson) (config : Config) (message : CommunicationMessage) :
    Task Unit := do
  match parseRequest json message with
  | .error e => finishMessage config (.error e)
  | .ok request => finishMessage config (← routeRequest config (messageKey message) request)

/-- The closure that `main` gives to `TaskLimiter::run`. -/
def spawnedTask (json : SerdeJson) (config : Config) (message : CommunicationMessage) :
    Task Unit :=
  let future := handleMessage json config message
  let _guard : Option (Task ParallelTaskQueue.LockGuard) := (getOrderGroupId message).map
    fun x => (ParallelTaskQueue.acquirePermit x).embed Call.lock
  future

end CommonDataLayer.DataRouter
