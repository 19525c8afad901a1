import CommonDataLayer.Foundations.TaskProgress
import CommonDataLayer.MessageOrdering

/-! # Payloads that bring the service down

The task of a message that does not parse aborts the process. A message that parses as an insert
message, but whose `data` is no `Value`, panics in `to_owned` when reporting is on. Everything else
is handed to the output plugin.

* `Unharmed`: whatever the payloads are, the process survives and hands over what is well formed.
* `unharmed_iff`: it is so exactly if every payload reaches the plugin.
-/
namespace CommonDataLayer.CommandService
open Interaction
open MessagingSystem (CommunicationMessage)
set_option autoImplicit false

/-- The event is not a publish that failed. -/
def PublishSucceeds : Event Answer → Prop
  | ⟨.publishMessage _ _ _, .error _⟩ => False
  | _ => True

/-- The event is not an acknowledgement that failed. -/
def AckSucceeds : Event Answer → Prop
  | ⟨.ack, .error _⟩ => False
  | _ => True

/-- While publishes succeed, a task does not panic, and it aborts the process only after its
acknowledgement failed; every run ends; and where it ends with the process alive and without a
failed acknowledgement, all messages that parse have been handed to the output plugin. -/
structure Unharmed (json : SerdeJson) (sender : ReportSender) (taskLimit : ℕ)
    (messages : List CommunicationMessage) : Prop where
  survives : ∀ s, (listen json sender taskLimit).Reachable messages () s →
    (∀ e ∈ s.log, PublishSucceeds e.2) → ∀ (i : ℕ) m q next,
      s.tasks[i]? = some (m, some (.call q next)) →
        q ≠ .panic ∧ (q = .abort → ∃ e ∈ s.log, e.1 = i ∧ ¬ AckSucceeds e.2)
  ends : ∀ s, (listen json sender taskLimit).Reachable messages () s →
    Acc (fun after before => (listen json sender taskLimit).Step before after) s
  handsOver : ∀ s, (listen json sender taskLimit).Reachable messages () s →
    (∀ e ∈ s.log, PublishSucceeds e.2 ∧ AckSucceeds e.2) → s.aborted = false →
      (listen json sender taskLimit).Idle s → ∀ (i : ℕ) m insert, messages[i]? = some m →
        MessageQueueInput.buildMessage json m = .ok insert →
          ∃ status, (i, ⟨.outputPlugin insert, status⟩) ∈ s.log

variable {json : SerdeJson} {sender : ReportSender} {taskLimit : ℕ} {m : CommunicationMessage}
  {messages : List CommunicationMessage}

/-! ## The task of one message -/

theorem spawnedTask_unparsable (h : unparsable json m = true) :
    ∃ next, MessageQueueInput.spawnedTask json sender m = .call .abort next := by
  unfold unparsable at h
  unfold MessageQueueInput.spawnedTask MessageQueueInput.handleMessage
  cases hbuild : MessageQueueInput.buildMessage json m with
  | error e => exact ⟨_, rfl⟩
  | ok insert =>
    rw [hbuild] at h
    cases h

/-- A message that parses and does not reach the plugin panics. -/
theorem spawnedTask_not_reachesPlugin (hparse : unparsable json m = false)
    (h : ¬ ReachesPlugin json sender m) :
    ∃ next, MessageQueueInput.spawnedTask json sender m = .call .panic next := by
  unfold unparsable at hparse
  unfold MessageQueueInput.spawnedTask MessageQueueInput.handleMessage
  unfold ReachesPlugin at h
  cases hbuild : MessageQueueInput.buildMessage json m with
  | error e =>
    rw [hbuild] at hparse
    cases hparse
  | ok insert =>
    cases sender with
    | disabled => exact absurd ⟨insert, hbuild, fun base hbase => by cases hbase⟩ h
    | full base =>
      cases howned : insert.toOwned json with
      | ok owned =>
        refine absurd ⟨insert, hbuild, fun base' _ => ⟨owned, howned⟩⟩ h
      | error e =>
        simp only [routeMessage, ReportSender.withMessageBody, howned]
        exact ⟨_, rfl⟩

/-- What a message that reaches the plugin goes through after it. -/
theorem spawnedTask_of_reachesPlugin (h : ReachesPlugin json sender m) : ∃ insert next,
    MessageQueueInput.buildMessage json m = .ok insert ∧
      MessageQueueInput.spawnedTask json sender m = .call (.outputPlugin insert) next ∧
      ∀ status, (next status).All (fun q => q ≠ .panic ∧ ∀ call, q ≠ .lock call) ∧
        (next status).AllUnder (fun e => PublishSucceeds e ∧ AckSucceeds e) (· ≠ .abort) ∧
        ∃ t, Returns (next status) t () ∧ ∀ e ∈ t, PublishSucceeds e ∧ AckSucceeds e := by
  obtain ⟨insert, hbuild, howned⟩ := h
  unfold MessageQueueInput.spawnedTask MessageQueueInput.handleMessage
  simp only [hbuild, routeMessage]
  cases sender with
  | disabled =>
    refine ⟨insert, _, rfl, rfl, fun status => ⟨⟨by simp, fun a => ?_⟩, ⟨by simp, fun a ha => ?_⟩,
      [⟨.ack, .ok ()⟩], .call (.refl _), ?_⟩⟩
    · cases a with
      | error e => exact ⟨by simp, fun a => a.elim⟩
      | ok _ => trivial
    · cases a with
      | error e => exact ha.2.elim
      | ok _ => trivial
    · exact List.forall_mem_singleton.mpr ⟨trivial, trivial⟩
  | full base =>
    obtain ⟨owned, howned⟩ := howned base rfl
    simp only [ReportSender.withMessageBody, howned]
    refine ⟨insert, _, rfl, rfl, fun status => ⟨⟨by simp, fun a => ?_⟩, ⟨by simp, fun a ha => ?_⟩,
      [⟨.publishMessage _ _ _, .ok ()⟩, ⟨.ack, .ok ()⟩], .call (.call (.refl _)), ?_⟩⟩
    · cases a with
      | error e => exact ⟨by simp, fun a => a.elim⟩
      | ok _ =>
        refine ⟨by simp, fun a => ?_⟩
        cases a with
        | error e => exact ⟨by simp, fun a => a.elim⟩
        | ok _ => trivial
    · cases a with
      | error e => exact ha.1.elim
      | ok _ =>
        refine ⟨by simp, fun a ha => ?_⟩
        cases a with
        | error e => exact ha.2.elim
        | ok _ => trivial
    · simp [PublishSucceeds, AckSucceeds]

/-! ## All messages -/

theorem exists_first {α : Type} {P : α → Prop} {l : List α} (h : ¬ ∀ a ∈ l, P a) :
    ∃ before a after, l = before ++ a :: after ∧ (∀ b ∈ before, P b) ∧ ¬ P a := by
  induction l with
  | nil => exact absurd (List.forall_mem_nil P) h
  | cons a l ih =>
    by_cases ha : P a
    · have hrest : ¬ ∀ b ∈ l, P b := fun hl => h (List.forall_mem_cons.mpr ⟨ha, hl⟩)
      obtain ⟨before, first, after, rfl, hbefore, hfirst⟩ := ih hrest
      exact ⟨a :: before, first, after, rfl, List.forall_mem_cons.mpr ⟨ha, hbefore⟩, hfirst⟩
    · exact ⟨[], a, l, rfl, List.forall_mem_nil P, ha⟩

/-- Where a task of a run stands, and what it has done. -/
theorem steps_of_task {s : Pool CommunicationMessage Answer Unit}
    (hreach : (listen json sender taskLimit).Reachable messages () s) {i : ℕ}
    {p : Task Unit} (hi : s.tasks[i]? = some (m, some p)) :
    m ∈ messages ∧ Steps (MessageQueueInput.spawnedTask json sender m) (s.logOf i) p := by
  have hsound := Consumer.sound hreach
  obtain ⟨rest, hsteps, hrest, -⟩ := hsound.trace i m (some p) hi
  refine ⟨List.mem_of_getElem? (hsound.message hi), ?_⟩
  rw [hrest p rfl]
  exact hsteps

/-- A task of a message that reaches the plugin. -/
theorem survives_of_reachesPlugin {s : Pool CommunicationMessage Answer Unit}
    (hmessages : ∀ m ∈ messages, ReachesPlugin json sender m)
    (hreach : (listen json sender taskLimit).Reachable messages () s)
    (hpublish : ∀ e ∈ s.log, PublishSucceeds e.2) {i : ℕ} {q : Call} {next : Answer q → Task Unit}
    (hi : s.tasks[i]? = some (m, some (.call q next))) :
    (q ≠ .panic ∧ ∀ call, q ≠ .lock call) ∧
      (q = .abort → ∃ e ∈ s.log, e.1 = i ∧ ¬ AckSucceeds e.2) := by
  obtain ⟨hmem, hsteps⟩ := steps_of_task hreach hi
  obtain ⟨insert, deliver, -, hbody, hdeliver⟩ := spawnedTask_of_reachesPlugin (hmessages m hmem)
  have hall : (MessageQueueInput.spawnedTask json sender m).All
      fun q => q ≠ .panic ∧ ∀ call, q ≠ .lock call := by
    rw [hbody]
    exact ⟨by simp, fun status => (hdeliver status).1⟩
  have hunder : (MessageQueueInput.spawnedTask json sender m).AllUnder
      (fun e => PublishSucceeds e ∧ AckSucceeds e) (· ≠ .abort) := by
    rw [hbody]
    exact ⟨by simp, fun status _ => (hdeliver status).2.1⟩
  refine ⟨(hall.steps hsteps).1, fun habort => ?_⟩
  by_contra hnone
  refine (hunder.steps hsteps fun e he => ?_).1 habort
  have hlog := Pool.mem_logOf.mp he
  refine ⟨hpublish _ hlog, ?_⟩
  by_contra hack
  exact hnone ⟨_, hlog, rfl, hack⟩

/-- A task that has ended has handed its message over. -/
theorem outputPlugin_of_ended {s : Pool CommunicationMessage Answer Unit}
    (hreach : (listen json sender taskLimit).Reachable messages () s) {i : ℕ}
    (h : ReachesPlugin json sender m) (hi : s.tasks[i]? = some (m, none)) :
    ∃ insert status, MessageQueueInput.buildMessage json m = .ok insert ∧
      (i, ⟨.outputPlugin insert, status⟩) ∈ s.log := by
  obtain ⟨rest, hsteps, -, hended⟩ := (Consumer.sound hreach).trace i m none hi
  obtain ⟨insert, deliver, hbuild, hbody, -⟩ := spawnedTask_of_reachesPlugin h
  have hsteps : Steps (MessageQueueInput.spawnedTask json sender m) (s.logOf i) rest := hsteps
  rw [hbody] at hsteps
  cases hlog : s.logOf i with
  | nil =>
    rw [hlog] at hsteps
    cases hsteps
    rcases hended rfl with hret | ⟨q, next, w, w', hcall, hpanic⟩
    · cases hret
    · cases hcall
      cases hpanic
  | cons e t =>
    rw [hlog] at hsteps
    obtain ⟨q, a⟩ := e
    obtain ⟨next, hcall, -⟩ := hsteps.cons_inv
    cases hcall
    refine ⟨insert, a, hbuild, Pool.mem_logOf.mp ?_⟩
    rw [hlog]
    exact List.mem_cons_self

theorem unharmed_of_reachesPlugin (hlimit : 0 < taskLimit)
    (hmessages : ∀ m ∈ messages, ReachesPlugin json sender m) :
    Unharmed json sender taskLimit messages where
  survives s hreach hpublish i m q next hi := by
    obtain ⟨hcalls, habort⟩ := survives_of_reachesPlugin hmessages hreach hpublish hi
    exact ⟨hcalls.1, habort⟩
  ends s _ := (Consumer.terminates rfl).apply s
  handsOver s hreach hlog halive hidle i m insert hm hbuild := by
    have hanswer : ∀ (j : ℕ) n q next, s.tasks[j]? = some (n, some (.call q next)) →
        Nonempty (Answer q) := by
      intro j n q next hj
      obtain ⟨⟨hpanic, hlock⟩, habort⟩ := survives_of_reachesPlugin hmessages hreach
        (fun e he => (hlog e he).1) hj
      cases q with
      | panic => exact absurd rfl hpanic
      | lock call => exact absurd rfl (hlock call)
      | abort =>
        obtain ⟨e, he, -, hack⟩ := habort rfl
        exact absurd (hlog e he).2 hack
      | outputPlugin message => exact ⟨Resolution.success⟩
      | publishMessage topic key payload => exact ⟨.ok ()⟩
      | ack => exact ⟨.ok ()⟩
    obtain ⟨hstream, hheld, htasks⟩ := open_listen.done_of_idle hlimit halive hidle hanswer
    have htaken : s.tasks.map (·.1) = messages := by
      have hsource := (Consumer.sound hreach).source
      rwa [hstream, List.append_nil, Pool.taken, hheld, Option.toList_none, List.append_nil] at hsource
    rw [← htaken, List.getElem?_map] at hm
    obtain ⟨task, htask, rfl⟩ := Option.map_eq_some_iff.mp hm
    have hi : s.tasks[i]? = some (task.1, none) := by
      rw [htask, ← htasks i task.1 task.2 htask]
    have hmem : task.1 ∈ messages := htaken ▸ List.mem_map_of_mem (List.mem_of_getElem? htask)
    obtain ⟨insert', status, hbuild', hhanded⟩ := outputPlugin_of_ended hreach (hmessages _ hmem) hi
    rw [hbuild] at hbuild'
    cases hbuild'
    exact ⟨status, hhanded⟩

/-- Without a permit nothing happens to a message. -/
theorem unharmed_of_no_permit (hlimit : taskLimit = 0)
    (hmessages : ∀ m ∈ messages, unparsable json m = true) :
    Unharmed json sender taskLimit messages where
  survives s hreach _ i m q next hi := by
    rw [Consumer.tasks_of_no_permit hlimit hreach] at hi
    cases hi
  ends s _ := (Consumer.terminates rfl).apply s
  handsOver s _ _ _ _ i m insert hm hbuild := by
    have hunparsable := hmessages m (List.mem_of_getElem? hm)
    rw [unparsable, hbuild] at hunparsable
    cases hunparsable

/-- The first message waits for a permit for ever. -/
theorem unparsable_of_unharmed (hlimit : taskLimit = 0)
    (h : Unharmed json sender taskLimit messages) : ∀ m ∈ messages, unparsable json m = true := by
  intro m hm
  cases messages with
  | nil => cases hm
  | cons first rest =>
    have htake : (listen json sender taskLimit).Reachable (first :: rest) ()
        { Pool.start (first :: rest) () with stream := rest, held := some first } :=
      .single (.take rfl rfl rfl trivial)
    have hidle : (listen json sender taskLimit).Idle
        { Pool.start (first :: rest) () with stream := rest, held := some first } := by
      intro s' hstep
      cases hstep with
      | take running free next taken => cases free
      | takeAborts running free next fatal => cases free
      | fetchError running free => cases free
      | spawn running waiting permit => exact absurd permit (by simp [listen, hlimit])
      | answer running pending answered => cases pending
      | finish running returned => cases returned
      | panic running pending unwinds => cases pending
      | abort running pending fatal => cases pending
    obtain ⟨i, hi⟩ := List.getElem?_of_mem hm
    cases hbuild : MessageQueueInput.buildMessage json m with
    | error e => simp [unparsable, hbuild, Except.toOption]
    | ok insert =>
      obtain ⟨status, hhanded⟩ := h.handsOver _ htake (List.forall_mem_nil _) rfl hidle i m insert hi hbuild
      cases hhanded

/-- The first message that does not reach the plugin is spawned after the others have been handled. -/
theorem reachesPlugin_of_unharmed (hlimit : 0 < taskLimit)
    (h : Unharmed json sender taskLimit messages) : ∀ m ∈ messages, ReachesPlugin json sender m := by
  by_contra hnot
  obtain ⟨served, m, rest, rfl, hserved, hm⟩ := exists_first hnot
  have hreturns : ∀ n ∈ served, ∃ t,
      Returns (MessageQueueInput.spawnedTask json sender n) t () ∧
        ∀ e ∈ t, PublishSucceeds e ∧ AckSucceeds e := by
    intro n hn
    obtain ⟨insert, deliver, -, hbody, hdeliver⟩ := spawnedTask_of_reachesPlugin (hserved n hn)
    obtain ⟨-, -, t, hreturns, ht⟩ := hdeliver .success
    rw [hbody]
    exact ⟨⟨.outputPlugin insert, .success⟩ :: t, .call hreturns,
      List.forall_mem_cons.mpr ⟨⟨trivial, trivial⟩, ht⟩⟩
  have hlisten : (listen json sender taskLimit).Open := open_listen
  obtain ⟨s, hreach, hlog, htask⟩ := hlisten.reach_next hlimit hreturns m rest
  have hpublish : ∀ e ∈ s.log, PublishSucceeds e.2 := fun e he => (hlog e he).2.1
  have htask : s.tasks[served.length]? =
      some (m, some (MessageQueueInput.spawnedTask json sender m)) := htask
  cases hparse : unparsable json m with
  | true =>
    obtain ⟨next, hbody⟩ := spawnedTask_unparsable hparse
    rw [hbody] at htask
    obtain ⟨e, he, hnumber, -⟩ := (h.survives s hreach hpublish _ m _ next htask).2 rfl
    exact absurd (hlog e he).1 (by omega)
  | false =>
    obtain ⟨next, hbody⟩ := spawnedTask_not_reachesPlugin hparse hm
    rw [hbody] at htask
    exact (h.survives s hreach hpublish _ m _ next htask).1 rfl

theorem unharmed_iff : Unharmed json sender taskLimit messages ↔ ∀ m ∈ messages,
    if taskLimit = 0 then unparsable json m = true else ReachesPlugin json sender m := by
  by_cases hlimit : taskLimit = 0
  · simp only [if_pos hlimit]
    exact ⟨unparsable_of_unharmed hlimit, unharmed_of_no_permit hlimit⟩
  · simp only [if_neg hlimit]
    have hpos := Nat.pos_of_ne_zero hlimit
    exact ⟨reachesPlugin_of_unharmed hpos, unharmed_of_reachesPlugin hpos⟩

/-- A payload that is not JSON. -/
theorem not_unharmed_not_json :
    ¬ Unharmed sampleJson .disabled 1 [⟨.ok "key", .ok "not json"⟩] := by
  intro h
  obtain ⟨insert, hbuild, -⟩ := reachesPlugin_of_unharmed Nat.one_pos h _ (List.mem_singleton_self _)
  have herror : MessageQueueInput.buildMessage sampleJson ⟨.ok "key", .ok "not json"⟩ =
      .error (.payloadDeserializationFailed "expected value at line 1 column 1") := by decide +kernel
  cases herror.symm.trans hbuild

end CommonDataLayer.CommandService
