import CommonDataLayer.Foundations.Runs
import CommonDataLayer.SchemaRegistry.Types

/-! # Replication roles and their workers

`ReplicationState` with the mutex around it, the workers that `set_role` starts, and the two ends of
their channels. Each call of `set_role` for a role other than `None` starts one worker, whose number
also stands for its stop channel and, for a Master, its event channel; the worker owns the receivers
until its future is dropped.

A future does nothing by itself. `Host` says who holds it: `start_replication_slave` gives the
future of `consume_mq` to the runtime, which polls it; `start_replication_master` starts a thread
whose closure calls `replicate_db_events` and returns the future as the result of the thread, which
nobody joins. Only a future on the runtime takes the steps of its body.
-/
namespace CommonDataLayer.SchemaRegistry
open TransitionSystem
set_option autoImplicit false

inductive ReplicationRole where
  | master
  | slave
  | none
  deriving DecidableEq, Repr

/-- The asynchronous function of a worker. -/
inductive Body where
  | replicateDbEvents
  | consumeMq
  deriving DecidableEq, Repr

inductive Host where
  /-- A closure that its thread has not run yet. -/
  | thread
  /-- The result of a thread that nobody joins. -/
  | result
  /-- A task that the runtime polls. -/
  | runtime
  /-- Finished, or dropped before. -/
  | dropped
  deriving DecidableEq, Repr

structure Worker where
  body : Body
  host : Host
  /-- The publisher or the consumer is connected. -/
  connected : Bool
  /-- What the stop channel holds. -/
  stopSignal : Bool
  /-- What the event channel holds. -/
  events : List ReplicationEvent

structure ReplicationState where
  replicationRole : ReplicationRole
  stopChannel : Option ℕ
  masterReplicationChannel : Option ℕ

/-- Why the process was aborted. -/
inductive Abort where
  | poisonedLock
  | cannotConnect
  | channelClosed
  | notDelivered
  deriving DecidableEq, Repr

structure Process where
  state : ReplicationState
  /-- A call has panicked with the lock held. -/
  poisoned : Bool
  aborted : Option Abort
  workers : List Worker
  /-- Events in tasks spawned by `send_messages_to_kafka`. -/
  publishing : List ReplicationEvent
  /-- Events handed to `publish_message`. -/
  published : List ReplicationEvent
  /-- Messages handed to `consume_message`. -/
  consumed : List MessagingSystem.CommunicationMessage

namespace Process

def new : Process where
  state := { replicationRole := .none, stopChannel := none, masterReplicationChannel := none }
  poisoned := false
  aborted := none
  workers := []
  publishing := []
  published := []
  consumed := []

def abort (p : Process) (reason : Abort) : Process := { p with aborted := some reason }

def setWorker (p : Process) (n : ℕ) (w : Worker) : Process :=
  { p with workers := p.workers.set n w }

/-- A worker, while it owns its receivers. -/
def receiver (p : Process) (n : ℕ) : Option Worker :=
  p.workers[n]?.filter fun w => w.host ≠ .dropped

/-! ## `ReplicationState` -/

def start (p : Process) (body : Body) (host : Host) : Process :=
  { p with workers := p.workers ++
      [{ body := body, host := host, connected := false, stopSignal := false, events := [] }] }

def startReplicationMaster (p : Process) : Process :=
  { p.start .replicateDbEvents .thread with
    state := { p.state with masterReplicationChannel := some p.workers.length } }

def startReplicationSlave (p : Process) : Process := p.start .consumeMq .runtime

/-- `set_role`, after the old worker was told to stop. -/
def enter (p : Process) (role : ReplicationRole) : Process :=
  let state : ReplicationState :=
    { replicationRole := role, stopChannel := none, masterReplicationChannel := none }
  match role with
  | .master => startReplicationMaster
      { p with state := { state with stopChannel := some p.workers.length } }
  | .slave => startReplicationSlave
      { p with state := { state with stopChannel := some p.workers.length } }
  | .none => { p with state := state }

/-- `old_channel.send(())` fails when the receiver is gone, and `unwrap` panics. -/
def setRole (p : Process) (role : ReplicationRole) : Process :=
  if p.poisoned then p.abort .poisonedLock
  else match p.state.stopChannel with
    | none => p.enter role
    | some old => match p.receiver old with
      | none => { p with state := { p.state with stopChannel := none }, poisoned := true }
      | some w => (p.setWorker old { w with stopSignal := true }).enter role

def replicateMessage (p : Process) (event : ReplicationEvent) : Process :=
  if p.poisoned then p.abort .poisonedLock
  else if p.state.replicationRole ≠ .master then p
  else match p.state.masterReplicationChannel with
    | none => p
    | some n => match p.receiver n with
      | none => p
      | some w => p.setWorker n { w with events := w.events ++ [event] }

/-! ## Workers -/

inductive Label where
  | setRole (role : ReplicationRole)
  | replicateMessage (event : ReplicationEvent)
  /-- The thread of a Master runs its closure. -/
  | runClosure (n : ℕ)
  /-- The thread has ended, and its result is dropped. -/
  | dropResult (n : ℕ)
  | connect (n : ℕ) (succeeds : Bool)
  /-- One round of the loop of `replicate_db_events`. -/
  | receiveEvent (n : ℕ)
  /-- One round of the loop of `consume_mq`, `none` being the end of the stream. -/
  | receiveMessage (n : ℕ)
      (message : Option (Except MessagingSystem.Error MessagingSystem.CommunicationMessage))
  /-- One of the spawned tasks calls `publish_message`. -/
  | publish (k : ℕ) (delivered : Bool)

def connect (p : Process) (n : ℕ) (w : Worker) (succeeds : Bool) : Process :=
  if succeeds then p.setWorker n { w with connected := true } else p.abort .cannotConnect

/-- `recv.recv()` blocks (`none`) while the channel is empty and its sender is there. -/
def receiveEvent (p : Process) (n : ℕ) (w : Worker) : Option Process :=
  match w.events with
  | [] => if p.state.masterReplicationChannel = some n then none else some (p.abort .channelClosed)
  | event :: rest =>
    if w.stopSignal then some (p.setWorker n { w with host := .dropped })
    else some { p.setWorker n { w with events := rest } with
      publishing := p.publishing ++ [event] }

def receiveMessage (p : Process) (n : ℕ) (w : Worker) :
    Option (Except MessagingSystem.Error MessagingSystem.CommunicationMessage) → Process
  | none => p.setWorker n { w with host := .dropped }
  | some message =>
    if w.stopSignal then p.setWorker n { w with host := .dropped }
    else match message with
      | .error _ => p
      | .ok message => { p with consumed := p.consumed ++ [message] }

def publish (p : Process) (k : ℕ) (event : ReplicationEvent) (delivered : Bool) : Process :=
  let p := { p with publishing := p.publishing.eraseIdx k, published := p.published ++ [event] }
  if delivered then p else p.abort .notDelivered

/-- One step of the process. -/
inductive Step : Process → Label → Process → Prop where
  | setRole {p : Process} (halive : p.aborted = none) (role : ReplicationRole) :
      Step p (.setRole role) (p.setRole role)
  | replicateMessage {p : Process} (halive : p.aborted = none) (event : ReplicationEvent) :
      Step p (.replicateMessage event) (p.replicateMessage event)
  | runClosure {p : Process} {n : ℕ} {w : Worker} (halive : p.aborted = none)
      (hw : p.workers[n]? = some w) (hhost : w.host = .thread) :
      Step p (.runClosure n) (p.setWorker n { w with host := .result })
  | dropResult {p : Process} {n : ℕ} {w : Worker} (halive : p.aborted = none)
      (hw : p.workers[n]? = some w) (hhost : w.host = .result) :
      Step p (.dropResult n) (p.setWorker n { w with host := .dropped })
  | connect {p : Process} {n : ℕ} {w : Worker} (halive : p.aborted = none)
      (hw : p.workers[n]? = some w) (hhost : w.host = .runtime) (hconnected : w.connected = false)
      (succeeds : Bool) : Step p (.connect n succeeds) (p.connect n w succeeds)
  | receiveEvent {p p' : Process} {n : ℕ} {w : Worker} (halive : p.aborted = none)
      (hw : p.workers[n]? = some w) (hhost : w.host = .runtime) (hconnected : w.connected = true)
      (hbody : w.body = .replicateDbEvents) (hreceive : p.receiveEvent n w = some p') :
      Step p (.receiveEvent n) p'
  | receiveMessage {p : Process} {n : ℕ} {w : Worker} (halive : p.aborted = none)
      (hw : p.workers[n]? = some w) (hhost : w.host = .runtime) (hconnected : w.connected = true)
      (hbody : w.body = .consumeMq)
      (message : Option (Except MessagingSystem.Error MessagingSystem.CommunicationMessage)) :
      Step p (.receiveMessage n message) (p.receiveMessage n w message)
  | publish {p : Process} {k : ℕ} {event : ReplicationEvent} (halive : p.aborted = none)
      (hevent : p.publishing[k]? = some event) (delivered : Bool) :
      Step p (.publish k delivered) (p.publish k event delivered)

end Process
end CommonDataLayer.SchemaRegistry
