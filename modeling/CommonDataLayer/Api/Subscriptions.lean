import Mathlib.Logic.Function.Basic
import CommonDataLayer.Consumption
import CommonDataLayer.Foundations.Program
import CommonDataLayer.Foundations.Runs

/-! # Subscribing to a message queue

`Context::subscribe_on_message_queue` keeps one `EventSubscriber` for each topic. It looks the topic
up under the lock of the map, which it holds until a missing subscriber is created and entered. The
task of a subscriber sends what its consumer yields into a broadcast channel until the stream ends.

After its loop the task calls `on_close`. The call returns a future, which would take the topic out
of the map; nobody polls it (`execute_afterLoop`). So the entry of a finished consumer stays, and
every later call is handed a stream of it (`served_iff`).
-/
namespace CommonDataLayer.Api
open Interaction MessagingSystem TryStream TransitionSystem
open Stream' (Seq)
set_option autoImplicit false

structure Event where
  key : Option String
  payload : Option String

def Event.new (msg : CommunicationMessage) : Event where
  key := msg.key.toOption
  payload := msg.payload.toOption

/-! ## The task of a subscriber -/

/-- The task that `EventSubscriber::new` spawns; the world of its loop is what was sent. -/
structure ConsumerTask where
  topic : String
  consumer : CommonConsumer
  loop : Loop String consumer.Item (List BorrowedMessage) (List (Except String Event))

def sendItem (sent : List (Except String Event)) (item : Except String CommunicationMessage) :
    Option (List (Except String Event)) := some (sent ++ [item.map Event.new])

namespace ConsumerTask

def spawn (topic : String) (consumer : CommonConsumer)
    (results : Seq (Except String consumer.Item)) : ConsumerTask :=
  { topic := topic, consumer := consumer, loop := ⟨consumer.consume results, [], false⟩ }

def poll (task : ConsumerTask) : ConsumerTask :=
  { task with loop := task.loop.round task.consumer.consumeBody sendItem }

def finished (task : ConsumerTask) : Bool := task.loop.left

end ConsumerTask

inductive MapCall where
  | remove (topic : String)

abbrev MapAnswer : MapCall → Type := fun _ => Unit

/-- The future that `on_close` returns. -/
def onClose (topic : String) : Program MapAnswer Unit := Program.perform (MapCall.remove topic)

/-- The rest of the task after its loop: the future is dropped. -/
def afterLoop (topic : String) : Program MapAnswer Unit := do
  let _future := onClose topic
  return ()

abbrev SubscriberMap : Type := String → Option ℕ

def answerMap : (call : MapCall) → SubscriberMap → MapAnswer call × SubscriberMap
  | .remove topic, map => ((), Function.update map topic none)

/-- What is left of the map when a program is run to its end. -/
def execute (map : SubscriberMap) (program : Program MapAnswer Unit) : SubscriberMap :=
  (program.run answerMap map).2

@[simp]
theorem execute_afterLoop (map : SubscriberMap) (topic : String) :
    execute map (afterLoop topic) = map := rfl

/-! ## The calls -/

/-- How far a call of `subscribe_on_message_queue` has come. -/
inductive Progress where
  | locking
  /-- It holds the lock and waits for `CommonConsumer::new`. -/
  | connecting
  /-- The task of its subscriber is spawned, the subscriber not entered yet. -/
  | spawned (subscriber : ℕ)
  | returned (subscriber : ℕ)
  | failed
  | cancelled

/-- The call holds the lock. -/
def Progress.Holds : Progress → Prop
  | .connecting => True
  | .spawned _ => True
  | _ => False

structure Context where
  holder : Option ℕ
  mqEvents : SubscriberMap
  tasks : ℕ → Option ConsumerTask
  calls : ℕ → Option (String × Progress)
  /-- The streams handed out by `EventSubscriber::subscribe`: the subscriber, and if its task was
  running. -/
  attached : List (ℕ × Bool)

inductive Action where
  | subscribe (call : ℕ) (topic : String)
  | lookup (call : ℕ)
  | connected (call subscriber : ℕ)
  | failed (call : ℕ)
  | cancelled (call : ℕ)
  | inserted (call : ℕ)
  | polled (subscriber : ℕ)

namespace Context

def new : Context where
  holder := none
  mqEvents _ := none
  tasks _ := none
  calls _ := none
  attached := []

def setCall (s : Context) (call : ℕ) (topic : String) (progress : Progress) : Context :=
  { s with calls := Function.update s.calls call (some (topic, progress)) }

inductive Step : Context → Action → Context → Prop where
  | subscribe {s : Context} {call : ℕ} {topic : String} (fresh : s.calls call = none) :
      Step s (.subscribe call topic) (s.setCall call topic .locking)
  | attaches {s : Context} {call k : ℕ} {topic : String} {task : ConsumerTask}
      (free : s.holder = none) (waits : s.calls call = some (topic, .locking))
      (found : s.mqEvents topic = some k) (subscriber : s.tasks k = some task) :
      Step s (.lookup call)
        { s.setCall call topic (.returned k) with attached := s.attached ++ [(k, !task.finished)] }
  | misses {s : Context} {call : ℕ} {topic : String} (free : s.holder = none)
      (waits : s.calls call = some (topic, .locking)) (missing : s.mqEvents topic = none) :
      Step s (.lookup call) { s.setCall call topic .connecting with holder := some call }
  | connected {s : Context} {call k : ℕ} {topic : String}
      (waits : s.calls call = some (topic, .connecting)) (fresh : s.tasks k = none)
      (consumer : CommonConsumer) (results : Seq (Except String consumer.Item)) :
      Step s (.connected call k) { s.setCall call topic (.spawned k) with
        tasks := Function.update s.tasks k (some (.spawn topic consumer results)) }
  | failed {s : Context} {call : ℕ} {topic : String}
      (waits : s.calls call = some (topic, .connecting)) :
      Step s (.failed call) { s.setCall call topic .failed with holder := none }
  | cancelledLocking {s : Context} {call : ℕ} {topic : String}
      (waits : s.calls call = some (topic, .locking)) :
      Step s (.cancelled call) (s.setCall call topic .cancelled)
  | cancelledConnecting {s : Context} {call : ℕ} {topic : String}
      (waits : s.calls call = some (topic, .connecting)) :
      Step s (.cancelled call) { s.setCall call topic .cancelled with holder := none }
  | inserted {s : Context} {call k : ℕ} {topic : String}
      (waits : s.calls call = some (topic, .spawned k)) :
      Step s (.inserted call) { s.setCall call topic (.returned k) with
        holder := none, mqEvents := Function.update s.mqEvents topic (some k) }
  | polled {s : Context} {k : ℕ} {task : ConsumerTask} (subscriber : s.tasks k = some task)
      (running : task.finished = false) :
      Step s (.polled k) { s with
        tasks := Function.update s.tasks k (some task.poll),
        mqEvents := if task.poll.finished then execute s.mqEvents (afterLoop task.topic)
          else s.mqEvents }

/-! ## What the subscribers get -/

/-- No stream comes from a subscriber whose task was over, and no topic has two running tasks. -/
structure Served (s : Context) : Prop where
  running : ∀ a ∈ s.attached, a.2 = true
  one : ∀ k k' task task', s.tasks k = some task → s.tasks k' = some task' →
    task.topic = task'.topic → task.finished = false → task'.finished = false → k = k'

/-- A topic is looked up only while no task of it is over. -/
def LooksUpRunning (s : Context) : Action → Prop
  | .lookup call => ∀ topic progress, s.calls call = some (topic, progress) →
      ∀ k task, s.tasks k = some task → task.topic = topic → task.finished = false
  | _ => True

/-! ## The map under its lock -/

/-- Every task is entered in the map, or belongs to the call that holds the lock. -/
structure Registered (s : Context) : Prop where
  entered : ∀ topic k, s.mqEvents topic = some k → ∃ task, s.tasks k = some task ∧ task.topic = topic
  known : ∀ k task, s.tasks k = some task →
    s.mqEvents task.topic = some k ∨ ∃ call, s.calls call = some (task.topic, .spawned k)
  locked : ∀ call topic progress, s.calls call = some (topic, progress) → progress.Holds →
    s.holder = some call ∧ s.mqEvents topic = none
  spawned : ∀ call topic k, s.calls call = some (topic, .spawned k) →
    ∃ task, s.tasks k = some task ∧ task.topic = topic

variable {s s' : Context} {action : Action}

/-- A topic has one task at most, running or not. -/
theorem Registered.one (h : Registered s) {k k' : ℕ} {task task' : ConsumerTask}
    (hk : s.tasks k = some task) (hk' : s.tasks k' = some task') (htopic : task.topic = task'.topic) :
    k = k' := by
  have hknown := h.known k task hk
  have hknown' := h.known k' task' hk'
  rw [htopic] at hknown
  obtain hmap | ⟨call, hcall⟩ := hknown <;> obtain hmap' | ⟨call', hcall'⟩ := hknown'
  · exact Option.some.inj (hmap.symm.trans hmap')
  · have hnone := (h.locked call' _ _ hcall' trivial).2
    rw [hmap] at hnone
    cases hnone
  · have hnone := (h.locked call _ _ hcall trivial).2
    rw [hmap'] at hnone
    cases hnone
  · have hholder := (h.locked call _ _ hcall trivial).1
    have hholder' := (h.locked call' _ _ hcall' trivial).1
    have hsame : call = call' := Option.some.inj (hholder.symm.trans hholder')
    rw [hsame, hcall'] at hcall
    simpa using hcall.symm

theorem registered_new : Registered new := by
  constructor <;> simp [new]

/-- A call that does not hold the lock moves on without it. -/
theorem Registered.setCall {call : ℕ} {topic : String} {progress : Progress} (h : Registered s)
    (hold : ∀ topic' old, s.calls call = some (topic', old) → ¬ old.Holds) (hnew : ¬ progress.Holds) :
    Registered (s.setCall call topic progress) := by
  obtain ⟨hentered, hknown, hlocked, hspawned⟩ := h
  have hne : ∀ k, progress ≠ .spawned k := by
    rintro k rfl
    exact hnew trivial
  have hkeeps : ∀ call' topic' k, s.calls call' = some (topic', .spawned k) → call' ≠ call := by
    rintro call' topic' k hcall' rfl
    exact hold _ _ hcall' trivial
  constructor <;> simp only [Context.setCall, Function.update_apply]
  · exact hentered
  · intro k task hk
    obtain hmap | ⟨call', hcall'⟩ := hknown k task hk
    · exact Or.inl hmap
    · exact Or.inr ⟨call', by rw [if_neg (hkeeps _ _ _ hcall')]; exact hcall'⟩
  · grind
  · grind

/-- The call that connects gives the lock back. -/
theorem Registered.release {call : ℕ} {topic : String} {progress : Progress} (h : Registered s)
    (waits : s.calls call = some (topic, .connecting)) (hnew : ¬ progress.Holds) :
    Registered { s.setCall call topic progress with holder := none } := by
  obtain ⟨hentered, hknown, hlocked, hspawned⟩ := h
  have hholder := (hlocked call topic _ waits trivial).1
  have hone : ∀ call' topic' old, s.calls call' = some (topic', old) → old.Holds → call' = call := by
    intro call' topic' old hcall' hholds
    exact Option.some.inj ((hlocked call' topic' old hcall' hholds).1.symm.trans hholder)
  constructor <;> simp only [Context.setCall, Function.update_apply]
  · exact hentered
  · intro k task hk
    obtain hmap | ⟨call', hcall'⟩ := hknown k task hk
    · exact Or.inl hmap
    · have hsame := hone call' _ _ hcall' trivial
      rw [hsame, waits] at hcall'
      cases hcall'
  · grind
  · grind [Progress.Holds]

theorem Registered.step (h : Registered s) (hstep : Step s action s') : Registered s' := by
  cases hstep with
  | subscribe fresh => exact h.setCall (by simp [fresh]) id
  | @attaches call k topic task free waits found subscriber =>
    have hkept : Registered (s.setCall call topic (.returned k)) :=
      h.setCall (by simp [waits, Progress.Holds]) id
    exact ⟨hkept.entered, hkept.known, hkept.locked, hkept.spawned⟩
  | cancelledLocking waits => exact h.setCall (by simp [waits, Progress.Holds]) id
  | failed waits => exact h.release waits id
  | cancelledConnecting waits => exact h.release waits id
  | @misses call topic free waits missing =>
    obtain ⟨hentered, hknown, hlocked, hspawned⟩ := h
    constructor <;> simp only [Context.setCall, Function.update_apply]
    · exact hentered
    · grind
    · grind
    · grind
  | @connected call k topic waits fresh consumer results =>
    obtain ⟨hentered, hknown, hlocked, hspawned⟩ := h
    constructor <;> simp only [Context.setCall, Function.update_apply]
    · grind
    · grind [ConsumerTask.spawn]
    · grind [Progress.Holds]
    · intro call' topic' k' hcall'
      split at hcall'
      · cases hcall'
        exact ⟨_, if_pos rfl, rfl⟩
      · obtain ⟨task, htask, htopic⟩ := hspawned call' topic' k' hcall'
        have hne : k' ≠ k := by
          rintro rfl
          rw [fresh] at htask
          cases htask
        exact ⟨task, by rw [if_neg hne]; exact htask, htopic⟩
  | @inserted call k topic waits =>
    obtain ⟨hentered, hknown, hlocked, hspawned⟩ := h
    constructor <;> simp only [Context.setCall, Function.update_apply]
    · grind
    · grind [Progress.Holds]
    · grind [Progress.Holds]
    · grind
  | @polled k task subscriber running =>
    obtain ⟨hentered, hknown, hlocked, hspawned⟩ := h
    have hmap : (if task.poll.finished then execute s.mqEvents (afterLoop task.topic) else s.mqEvents) =
        s.mqEvents := by rw [execute_afterLoop, ite_self]
    have htopic : task.poll.topic = task.topic := rfl
    constructor <;> simp only [hmap, Function.update_apply]
    · grind
    · grind
    · exact hlocked
    · grind

/-! ## Every run -/

structure Good (s : Context) : Prop where
  registered : Registered s
  running : ∀ a ∈ s.attached, a.2 = true

theorem Good.served (h : Good s) : Served s where
  running := h.running
  one _ _ _ _ hk hk' htopic _ _ := h.registered.one hk hk' htopic

/-- Only a call that finds its topic is handed a stream of an old subscriber. -/
theorem running_step (h : Good s) (hstep : Step s action s') :
    (∀ a ∈ s'.attached, a.2 = true) ↔ LooksUpRunning s action := by
  cases hstep with
  | @attaches call k topic task free waits found subscriber =>
    obtain ⟨task', htask', htopic⟩ := h.registered.entered topic k found
    rw [subscriber, Option.some.injEq] at htask'
    subst htask'
    simp only [List.forall_mem_append, List.forall_mem_singleton, Bool.not_eq_true', and_iff_right h.running]
    constructor
    · intro hrunning topic' progress hcall k' task' htask' htopic'
      rw [waits, Option.some.injEq, Prod.mk.injEq] at hcall
      have hsame := h.registered.one htask' subscriber (by rw [htopic', htopic, hcall.1])
      rw [hsame, subscriber, Option.some.injEq] at htask'
      rw [← htask']
      exact hrunning
    · intro hlooks
      exact hlooks topic _ waits k task subscriber htopic
  | @misses call topic free waits missing =>
    refine iff_of_true h.running ?_
    intro topic' progress hcall k task htask htopic
    rw [waits, Option.some.injEq, Prod.mk.injEq] at hcall
    obtain hmap | ⟨call', hcall'⟩ := h.registered.known k task htask
    · rw [htopic, ← hcall.1, missing] at hmap
      cases hmap
    · have hholder := (h.registered.locked call' _ _ hcall' trivial).1
      rw [free] at hholder
      cases hholder
  | _ => exact iff_of_true h.running trivial

/-- **Every stream comes from a running task, and every topic has one running task at most, exactly
as long as no topic is looked up after its task was over.** -/
theorem served_iff {ts : List (Transition Context Action)} (hrun : Run Step new ts s) :
    (∀ s ∈ states new ts, Served s) ↔ ∀ t ∈ ts, LooksUpRunning t.before t.label :=
  hrun.states_iff { registered := registered_new, running := List.forall_mem_nil _ }
    (fun _ h => h.served)
    (fun _ _ _ h hstep hok =>
      { registered := h.registered.step hstep, running := (running_step h hstep).mpr hok })
    fun _ _ _ h hstep hnot hserved => hnot ((running_step h hstep).mp hserved.running)

/-! ### A first subscriber -/

/-- The first call, which connects. -/
def connecting : Context :=
  { (new.setCall 0 "reports" .locking).setCall 0 "reports" .connecting with holder := some 0 }

def connected : Context :=
  { connecting.setCall 0 "reports" (.spawned 0) with
    tasks := Function.update connecting.tasks 0 (some (.spawn "reports" .kafka Seq.nil)) }

/-- It has returned, and nothing has come from its consumer. -/
def subscribed : Context :=
  { connected.setCall 0 "reports" (.returned 0) with
    holder := none, mqEvents := Function.update connected.mqEvents "reports" (some 0) }

theorem run_subscribed : ∃ ts, Run Step new ts subscribed ∧
    ∀ t ∈ ts, LooksUpRunning t.before t.label := by
  have hasks : Step new (.subscribe 0 "reports") (new.setCall 0 "reports" .locking) := .subscribe rfl
  have hmisses : Step (new.setCall 0 "reports" .locking) (.lookup 0) connecting := .misses rfl rfl rfl
  have hconnects : Step connecting (.connected 0 0) connected := .connected rfl rfl .kafka Seq.nil
  have hreturns : Step connected (.inserted 0) subscribed := .inserted rfl
  refine ⟨_, (((Run.start.step hasks).step hmisses).step hconnects).step hreturns, ?_⟩
  intro t ht
  simp only [List.nil_append, List.cons_append, List.mem_cons, List.not_mem_nil, or_false] at ht
  obtain rfl | rfl | rfl | rfl := ht
  · trivial
  · intro _ _ _ k task htask _
    cases htask
  · trivial
  · trivial

/-- A second call finds the consumer running. -/
theorem served_second : ∃ ts s, Run Step new ts s ∧ s.attached = [(0, true)] ∧
    ∀ s ∈ states new ts, Served s := by
  obtain ⟨ts, hrun, hlooks⟩ := run_subscribed
  have hasks : Step subscribed (.subscribe 1 "reports") (subscribed.setCall 1 "reports" .locking) :=
    .subscribe rfl
  have hfinds : Step (subscribed.setCall 1 "reports" .locking) (.lookup 1)
      { (subscribed.setCall 1 "reports" .locking).setCall 1 "reports" (.returned 0) with
        attached := [(0, true)] } :=
    @Step.attaches _ 1 0 "reports" (.spawn "reports" .kafka Seq.nil) rfl rfl rfl rfl
  have hrun' := (hrun.step hasks).step hfinds
  refine ⟨_, _, hrun', rfl, (served_iff hrun').mpr ?_⟩
  have hlast : LooksUpRunning (subscribed.setCall 1 "reports" .locking) (.lookup 1) := by
    intro _ _ _ k task htask _
    have htask : (if k = 0 then some (ConsumerTask.spawn "reports" .kafka Seq.nil) else none) = some task := by
      simpa [subscribed, connected, connecting, setCall, new, Function.update_apply] using htask
    split at htask
    · cases htask
      rfl
    · cases htask
  simp only [List.forall_mem_append, List.forall_mem_singleton]
  exact ⟨⟨hlooks, trivial⟩, hlast⟩

/-- The stream of the consumer ends, and the next call is handed a stream of it. -/
theorem attached_to_finished : ¬ ∀ ts s, Run Step new ts s → ∀ s ∈ states new ts, Served s := by
  intro h
  obtain ⟨ts, hrun, -⟩ := run_subscribed
  let ended : Context := { subscribed with
    tasks := Function.update subscribed.tasks 0 (some (ConsumerTask.spawn "reports" .kafka Seq.nil).poll) }
  have hends : Step subscribed (.polled 0) ended :=
    @Step.polled _ 0 (.spawn "reports" .kafka Seq.nil) rfl rfl
  have hasks : Step ended (.subscribe 1 "reports") (ended.setCall 1 "reports" .locking) := .subscribe rfl
  have hfinds : Step (ended.setCall 1 "reports" .locking) (.lookup 1)
      { (ended.setCall 1 "reports" .locking).setCall 1 "reports" (.returned 0) with
        attached := [(0, false)] } :=
    @Step.attaches _ 1 0 "reports" (ConsumerTask.spawn "reports" .kafka Seq.nil).poll rfl rfl rfl rfl
  have hrun' := ((hrun.step hends).step hasks).step hfinds
  have hserved := h _ _ hrun' _ hrun'.last_mem_states
  exact absurd (hserved.running (0, false) (List.mem_singleton_self _)) (by decide)

end Context
end CommonDataLayer.Api
