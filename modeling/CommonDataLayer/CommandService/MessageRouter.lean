import CommonDataLayer.Utils.MessagingSystem
import CommonDataLayer.Utils.ParallelTaskQueue

/-! # The command service

An insert message arrives through a queue (`MessageQueueInput`) or through gRPC (`GRPCInput`), goes
to the output plugin and, if reporting is configured, its resolution is published as a report. The
plugin is a call: it may resolve a message in any way. A report body always serialises. Logs and
counters are left out.

`spawnedTask` is the closure that `listen` gives to `TaskLimiter::run`; as in the data router the
future of `acquire_permit` stays in `_guard` and is not polled.
-/
namespace CommonDataLayer.CommandService
open Interaction
set_option autoImplicit false

inductive Resolution where
  | storageLayerFailure (description : String)
  | commandServiceFailure
  | userFailure (description context : String)
  | success
  deriving DecidableEq, Repr

def Resolution.display : Resolution → String
  | storageLayerFailure description => s!"failed on database layer, `{description}`"
  | commandServiceFailure => "internal server error"
  | userFailure description context => s!"{description}; caused by {context}"
  | success => "success"

structure ReportBody where
  application : String
  outputPlugin : String
  description : String
  objectId : Uuid
  payload : Value

inductive Call where
  | lock (call : ParallelTaskQueue.Call)
  /-- `OutputPlugin::handle_message`. -/
  | outputPlugin (message : BorrowedInsertMessage)
  | publishMessage (topicOrExchange key : String) (payload : ReportBody)
  | ack
  /-- The `expect` of `to_owned`. -/
  | panic
  | abort

abbrev Answer : Call → Type
  | .lock call => ParallelTaskQueue.Answer call
  | .outputPlugin _ => Resolution
  | .publishMessage _ _ _ => Except MessagingSystem.Error Unit
  | .ack => Except MessagingSystem.Error Unit
  | .panic => Empty
  | .abort => Empty

abbrev Task (α : Type) : Type := Program Answer α

def outputPlugin (message : BorrowedInsertMessage) : Task Resolution :=
  Program.perform (Call.outputPlugin message)
def publishMessage (topic key : String) (payload : ReportBody) :
    Task (Except MessagingSystem.Error Unit) :=
  Program.perform (Call.publishMessage topic key payload)
def ack : Task (Except MessagingSystem.Error Unit) := Program.perform Call.ack
def abort {α : Type} : Task α := .call Call.abort Empty.elim
def panic {α : Type} : Task α := .call Call.panic Empty.elim

/-! ## Reports -/

namespace Report

inductive Error where
  | producerCreation (source : MessagingSystem.Error)
  | failedToReport (source : MessagingSystem.Error)
  | failedToProduceErrorMessage (source : String)
  deriving DecidableEq, Repr

def Error.display : Error → String
  | producerCreation source => s!"Failed to create producer `{source.display}`"
  | failedToReport source => s!"Failed to deliver report `{source.display}`"
  | failedToProduceErrorMessage source => s!"Failed to produce error message `{source}`"

end Report

structure FullReportSenderBase where
  topic : String
  outputPlugin : String
  deriving DecidableEq, Repr

inductive ReportSender where
  | full (base : FullReportSenderBase)
  | disabled
  deriving DecidableEq, Repr

/-- The reporters: the full sender of one message, and `()`. -/
inductive Reporter where
  | full (base : FullReportSenderBase) (message : OwnedInsertMessage)
  | unit

def ReportSender.withMessageBody (json : SerdeJson) (sender : ReportSender)
    (message : BorrowedInsertMessage) : Task Reporter :=
  match sender with
  | full base =>
    match message.toOwned json with
    | .error _ => panic
    | .ok owned => return .full base owned
  | disabled => return .unit

def applicationName : String := "Command Service"

def reportKey : String := "command_service.status"

def reportBody (base : FullReportSenderBase) (message : OwnedInsertMessage)
    (description : String) : ReportBody :=
  { application := applicationName, outputPlugin := base.outputPlugin, description := description,
    objectId := message.objectId, payload := message.data }

def Reporter.report (reporter : Reporter) (description : String) :
    Task (Except Report.Error Unit) :=
  match reporter with
  | full base message => do
    match ← publishMessage base.topic reportKey (reportBody base message description) with
    | .error e => return .error (.failedToReport e)
    | .ok () => return .ok ()
  | unit => return .ok ()

/-- `MessageRouter::handle_message`. -/
def routeMessage (json : SerdeJson) (sender : ReportSender) (message : BorrowedInsertMessage) :
    Task (Except Report.Error Unit) := do
  let reporter ← sender.withMessageBody json message
  let status ← outputPlugin message
  reporter.report status.display

/-! ## The inputs -/

/-- `input::Error`, its variants that handling a message can produce. -/
inductive InputError where
  | payloadDeserializationFailed (source : String)
  | failedToAcknowledge (source : MessagingSystem.Error)
  | notValidUuid (field : String) (source : String)
  | missingPayload (source : MessagingSystem.Error)
  | communicationError (source : Report.Error)
  deriving DecidableEq, Repr

def InputError.display : InputError → String
  | payloadDeserializationFailed source => s!"Message payload deserialization failed: {source}"
  | failedToAcknowledge source => s!"Failed to acknowledge message `{source.display}`"
  | notValidUuid field source => s!"Message has a non-UUID {field}: {source}"
  | missingPayload source => s!"Message is missing payload `{source.display}`"
  | communicationError source => s!"Failed to communicate with handler `{source.display}`"

namespace MessageQueueInput
open MessagingSystem (CommunicationMessage getOrderGroupId)

def buildMessage (json : SerdeJson) (message : CommunicationMessage) :
    Except InputError BorrowedInsertMessage := do
  let text ← message.payload.mapError InputError.missingPayload
  (json.insertMessage text).mapError InputError.payloadDeserializationFailed

def handleMessage (json : SerdeJson) (sender : ReportSender) (message : CommunicationMessage) :
    Task (Except InputError Unit) := do
  match buildMessage json message with
  | .error e => return .error e
  | .ok genericMessage =>
    match ← routeMessage json sender genericMessage with
    | .error e => return .error (.communicationError e)
    | .ok () =>
      match ← ack with
      | .error e => return .error (.failedToAcknowledge e)
      | .ok () => return .ok ()

/-- The closure that `listen` gives to `TaskLimiter::run`. -/
def spawnedTask (json : SerdeJson) (sender : ReportSender) (message : CommunicationMessage) :
    Task Unit := do
  let orderGroupId := getOrderGroupId message
  let _guard : Option (Task ParallelTaskQueue.LockGuard) := orderGroupId.map
    fun x => (ParallelTaskQueue.acquirePermit x).embed Call.lock
  match ← handleMessage json sender message with
  | .error _ => abort
  | .ok () => return ()

end MessageQueueInput

namespace GRPCInput

/-- The request of the RPC. -/
structure InsertMessage where
  objectId : String
  schemaId : String
  timestamp : ℤ
  data : List UInt8
  deriving DecidableEq, Repr

/-- A `tonic::Status` of code `Internal`. -/
structure Internal where
  message : String
  deriving DecidableEq, Repr

def buildMessage (json : SerdeJson) (parseUuid : String → Except String Uuid)
    (message : InsertMessage) : Except InputError BorrowedInsertMessage := do
  let objectId ← (parseUuid message.objectId).mapError (InputError.notValidUuid "Object ID")
  let schemaId ← (parseUuid message.schemaId).mapError (InputError.notValidUuid "Schema ID")
  let data ← (json.rawValue message.data).mapError InputError.payloadDeserializationFailed
  return { objectId := objectId, schemaId := schemaId, timestamp := message.timestamp, data := data }

def handleMessage (json : SerdeJson) (parseUuid : String → Except String Uuid)
    (sender : ReportSender) (message : InsertMessage) : Task (Except InputError Unit) := do
  match buildMessage json parseUuid message with
  | .error e => return .error e
  | .ok genericMessage =>
    match ← routeMessage json sender genericMessage with
    | .error e => return .error (.communicationError e)
    | .ok () => return .ok ()

def insert (json : SerdeJson) (parseUuid : String → Except String Uuid)
    (sender : ReportSender) (request : InsertMessage) : Task (Except Internal Unit) := do
  match ← handleMessage json parseUuid sender request with
  | .ok _ => return .ok ()
  | .error err => return .error ⟨err.display⟩

end GRPCInput
end CommonDataLayer.CommandService
