import CommonDataLayer.Foundations.Program
import CommonDataLayer.Foundations.Runs
import CommonDataLayer.SchemaRegistry.ReplicationState
import CommonDataLayer.Wire.Values
import Mathlib.Logic.Function.Basic

/-! # The leader elector

`electLeader` is one iteration of the loop: when the heartbeat of the master fails, it requests the
deletion of the pods that are labelled as masters, has some pod promote itself and labels it. The
role of a pod is in its process; its label is in Kubernetes.

In the cluster, a call takes effect and is answered, takes effect without an answer, or fails. Pods
come and go at any time, and so does the elector.
-/
namespace CommonDataLayer.LeaderElector
open Interaction SchemaRegistry
set_option autoImplicit false

inductive Service where
  /-- Routes to the pods with the label `role=master`. -/
  | master
  /-- Routes to all pods of the app. -/
  | registry
  deriving DecidableEq, Repr

inductive Call where
  | heartbeat (addr : Service)
  | promoteToMaster (addr : Service)
  /-- The pods with the labels of the app and `role=master`. -/
  | list
  /-- With a grace period of 0 seconds. -/
  | delete (podName : String)
  /-- Sets the label `role=master`. -/
  | patch (podName : String)

abbrev Answer : Call → Type
  | .heartbeat _ => Except String Unit
  | .promoteToMaster _ => Except String String
  | .list => Except String (List String)
  | .delete _ => Except String Unit
  | .patch _ => Except String Unit

abbrev Task (α : Type) : Type := ExceptT AnyhowError (Program Answer) α

def tryCall {α : Type} (call : Program Answer (Except String α)) : Task α :=
  ExceptT.mk (call.bind fun r => .ret (r.mapError .root))

/-- A call whose error is looked at. -/
def attempt {α : Type} (call : Program Answer (Except String α)) : Task (Except String α) :=
  ExceptT.mk (call.bind fun r => .ret (.ok r))

def deleteAll : List String → Task Unit
  | [] => return ()
  | podName :: pods => do
    tryCall (Program.perform (Call.delete podName))
    deleteAll pods

def removeMasterInstance : Task Unit := do
  let pods ← tryCall (Program.perform Call.list)
  deleteAll pods

def promoteSlaveToMaster : Task Unit := do
  let promotion ← attempt (Program.perform (Call.promoteToMaster .registry))
  match promotion with
  | .ok podName => tryCall (Program.perform (Call.patch podName))
  | .error _ => return ()

def electLeader : Task Unit := do
  let heartbeat ← attempt (Program.perform (Call.heartbeat .master))
  match heartbeat with
  | .ok () => return ()
  | .error _ => do
    removeMasterInstance
    promoteSlaveToMaster

/-! ## The cluster -/

structure Pod where
  role : ReplicationRole
  /-- The label `role=master`. -/
  labelled : Bool
  /-- The deletion was requested. -/
  deleting : Bool

/-- A pod starts with `REPLICATION_ROLE=slave`. -/
def Pod.started : Pod := { role := .slave, labelled := false, deleting := false }

structure State where
  /-- The live pods. -/
  pods : String → Option Pod
  task : Program Answer (Except AnyhowError Unit)

def initially : State := { pods := fun _ => none, task := electLeader.run }

inductive Action where
  | started (podName : String)
  /-- The process in the pod has ended. -/
  | stopped (podName : String)
  | promoted (podName : String)
  | called
  | failed
  | restarted
  deriving DecidableEq, Repr

def Service.Routes : Service → Pod → Prop
  | master, pod => pod.labelled = true
  | registry, _ => True

/-- What a call does and answers. -/
inductive Effect (pods : String → Option Pod) :
    (q : Call) → Answer q → Action → (String → Option Pod) → Prop where
  | heartbeat {addr : Service} {name : String} {pod : Pod} (h : pods name = some pod)
      (hroutes : addr.Routes pod) : Effect pods (.heartbeat addr) (.ok ()) .called pods
  | promoteToMaster {addr : Service} {name : String} {pod : Pod} (h : pods name = some pod)
      (hroutes : addr.Routes pod) :
      Effect pods (.promoteToMaster addr) (.ok name) (.promoted name)
        (Function.update pods name (some { pod with role := .master }))
  | list {names : List String}
      (h : ∀ name, name ∈ names ↔ ∃ pod, pods name = some pod ∧ pod.labelled = true) :
      Effect pods .list (.ok names) .called pods
  | delete {name : String} {pod : Pod} (h : pods name = some pod) :
      Effect pods (.delete name) (.ok ()) .called
        (Function.update pods name (some { pod with deleting := true }))
  | patch {name : String} {pod : Pod} (h : pods name = some pod) :
      Effect pods (.patch name) (.ok ()) .called
        (Function.update pods name (some { pod with labelled := true }))

def failed (text : String) : (q : Call) → Answer q
  | .heartbeat _ => .error text
  | .promoteToMaster _ => .error text
  | .list => .error text
  | .delete _ => .error text
  | .patch _ => .error text

inductive Step : State → Action → State → Prop where
  | started {s : State} {name : String} (h : s.pods name = none) :
      Step s (.started name) { s with pods := Function.update s.pods name (some .started) }
  /-- The pod is deleted, or its node fails. -/
  | removed {s : State} {name : String} {pod : Pod} (h : s.pods name = some pod) :
      Step s (.stopped name) { s with pods := Function.update s.pods name none }
  /-- The container is restarted; the pod keeps its label. -/
  | crashed {s : State} {name : String} {pod : Pod} (h : s.pods name = some pod) :
      Step s (.stopped name)
        { s with pods := Function.update s.pods name (some { pod with role := .slave }) }
  | answered {s : State} {q : Call} {next : Answer q → Program Answer (Except AnyhowError Unit)}
      {answer : Answer q} {action : Action} {pods : String → Option Pod}
      (h : s.task = .call q next) (heffect : Effect s.pods q answer action pods) :
      Step s action { pods := pods, task := next answer }
  | lost {s : State} {q : Call} {next : Answer q → Program Answer (Except AnyhowError Unit)}
      {answer : Answer q} {action : Action} {pods : String → Option Pod} {text : String}
      (h : s.task = .call q next) (heffect : Effect s.pods q answer action pods) :
      Step s action { pods := pods, task := next (failed text q) }
  | failed {s : State} {q : Call} {next : Answer q → Program Answer (Except AnyhowError Unit)}
      {text : String} (h : s.task = .call q next) :
      Step s .failed { s with task := next (failed text q) }
  /-- The loop goes on, or the elector is started again, also in the middle of an iteration. -/
  | restarted {s : State} : Step s .restarted { s with task := electLeader.run }

end CommonDataLayer.LeaderElector
