import CommonDataLayer.Foundations.TaskOrder
import CommonDataLayer.DataRouter.Delivery
import CommonDataLayer.CommandService.Acknowledgement

/-! # The order of the messages of a group

Both services spawn one task per message through `TaskLimiter::run`. The guard of the order group
is a future that is never polled, so the tasks do not wait for each other, and the only thing that
can keep two messages of a group apart is the lack of a second permit. A permit is kept for good
by a task that can only abort, which in the command service is the task of a message that does
not parse.

The surroundings are `Host.free`: brokers, registry, cache and plugin may answer anything.
-/
namespace CommonDataLayer
open Interaction MessagingSystem
set_option autoImplicit false

/-- Two effective messages of a group find at most one permit that is not kept for good. -/
def AtMostOnePermit (taskLimit : ℕ) (effective : CommunicationMessage → Prop)
    (stuck : CommunicationMessage → Bool) (messages : List CommunicationMessage) : Prop :=
  ∀ i j m n key, i < j → messages[i]? = some m → messages[j]? = some n →
    getOrderGroupId m = some key → getOrderGroupId n = some key → effective m → effective n →
    taskLimit < (messages.take j).countP stuck + 2

/-! ## The data router -/

namespace DataRouter
variable {json : SerdeJson} {config : Config} {taskLimit : ℕ}

/-- The loop of `main`. -/
def router (json : SerdeJson) (config : Config) (taskLimit : ℕ) :
    Consumer CommunicationMessage Answer :=
  { Host.free CommunicationMessage Answer (fun _ => False) (· = .abort) with
    limit := taskLimit
    body := spawnedTask json config
    fetchErrorAborts := false }

def Call.IsPublish : Call → Prop
  | publishMessage _ _ _ => True
  | _ => False

/-- Everything but the empty array leads to a publish. -/
def Publishes (json : SerdeJson) (message : CommunicationMessage) : Prop :=
  ∀ request, parseRequest json message = .ok request → request.entries ≠ []

theorem all_finishMessage_ok :
    (finishMessage config (.ok ())).All fun q => ¬ q.IsPublish := by
  refine ⟨id, fun a => ?_⟩
  cases a with
  | error e => exact ⟨id, fun a => a.elim⟩
  | ok _ => trivial

/-- The calls of an entry whose topic is in the cache. -/
def cachedSegment (key : String) (entry : DataRouterInsertMessage) : Trace × Result Unit :=
  ([⟨.currentTimestamp, (0 : ℤ)⟩, ⟨.cacheGetMut entry.schemaId, some ""⟩,
    published "" key (.insert (stamped entry 0))], .ok ())

theorem routed_cachedSegment (key : String) (entry : DataRouterInsertMessage) :
    Routed config key entry (cachedSegment key entry).1 (cachedSegment key entry).2 :=
  .published (.cached "")

theorem routedAll_cachedSegment (config : Config) (key : String) (entries : List DataRouterInsertMessage) :
    RoutedAll config key entries (entries.map (cachedSegment key)) := by
  induction entries with
  | nil => exact .nil
  | cons entry rest ih => exact .cons (routed_cachedSegment key entry) ih

theorem returns_finishMessage (config : Config) (result : Result Unit) :
    ∃ t, Returns (finishMessage config result) t () := by
  cases result with
  | error e =>
    exact ⟨[published config.errorTopicOrExchange serviceName (.report e), ⟨.ack, .ok ()⟩],
      .call (.call (.refl _))⟩
  | ok _ => exact ⟨[⟨.ack, .ok ()⟩], .call (.refl _)⟩

theorem canEnd_router (m : CommunicationMessage) : (router json config taskLimit).CanEnd m := by
  show ∃ t rest, Steps (handleMessage json config m) t rest ∧ _
  unfold handleMessage
  cases parseRequest json m with
  | error e =>
    obtain ⟨t, ht⟩ := returns_finishMessage config (.error e)
    exact ⟨t, _, ht, .inl rfl⟩
  | ok request =>
    have hroute := returns_routeRequest.mpr
      ⟨_, routedAll_cachedSegment config (messageKey m) request.entries, rfl, rfl⟩
    obtain ⟨t, ht⟩ := returns_finishMessage config (lastResult (.ok ()) _)
    exact ⟨_, _, returns_bind.mpr ⟨_, _, t, rfl, hroute, ht⟩, .inl rfl⟩

theorem canEffect_router (m : CommunicationMessage) :
    (router json config taskLimit).CanEffect Call.IsPublish m ↔ Publishes json m := by
  show (∃ t rest, Steps (handleMessage json config m) t rest ∧ _) ↔ _
  unfold handleMessage Publishes
  cases parseRequest json m with
  | error e =>
    refine ⟨fun _ request h => (by cases h), fun _ => ?_⟩
    exact ⟨[published config.errorTopicOrExchange serviceName (.report e)], _, .call (.refl _),
      _, List.mem_singleton_self _, trivial⟩
  | ok request =>
    simp only [Except.ok.injEq, forall_eq', routeRequest_eq]
    cases hentries : request.entries with
    | nil =>
      refine ⟨?_, fun h => absurd rfl h⟩
      rintro ⟨t, rest, ht, e, he, heff⟩
      have hall := (all_finishMessage_ok : (finishMessage config (.ok ())).All fun q => ¬ q.IsPublish)
      exact absurd heff (hall.mem ht he)
    | cons entry rest =>
      refine ⟨fun _ => by simp, fun _ => ?_⟩
      have hroute : Returns (route config (messageKey m) entry) _ _ :=
        returns_route.mpr (routed_cachedSegment (messageKey m) entry)
      have hentry : Steps (routeEntries config (messageKey m) (entry :: rest) (.ok ())) _ _ :=
        routeEntries_cons (messageKey m) entry rest _ ▸ hroute.bind _
      exact ⟨_, _, hentry.bind (finishMessage config), published "" (messageKey m)
        (.insert (stamped entry 0)), by simp [cachedSegment], trivial⟩

theorem open_router : (router json config taskLimit).Open :=
  Consumer.open_free taskLimit (spawnedTask json config) false _ _

theorem router_inOrder_iff (messages : List CommunicationMessage) :
    (∀ s, (router json config taskLimit).Reachable messages () s →
      InOrder getOrderGroupId Call.IsPublish messages s.log) ↔
    AtMostOnePermit taskLimit (Publishes json) (fun _ => false) messages :=
  (open_router.inOrder_iff getOrderGroupId Call.IsPublish).trans
    (Consumer.serial_iff canEffect_router (fun m => by simp [canEnd_router])
      (fun m _ => canEnd_router m) messages)

end DataRouter

/-! ## The command service -/

namespace CommandService
variable {json : SerdeJson} {sender : ReportSender} {taskLimit : ℕ}

/-- The loop of `listen`. -/
def listen (json : SerdeJson) (sender : ReportSender) (taskLimit : ℕ) :
    Consumer CommunicationMessage Answer :=
  { Host.free CommunicationMessage Answer (· = .panic) (· = .abort) with
    limit := taskLimit
    body := MessageQueueInput.spawnedTask json sender
    fetchErrorAborts := true }

def Call.IsOutputPlugin : Call → Prop
  | outputPlugin _ => True
  | _ => False

/-- The message parses and, for a full report sender, so does its document. -/
def ReachesPlugin (json : SerdeJson) (sender : ReportSender) (message : CommunicationMessage) :
    Prop :=
  ∃ insert, MessageQueueInput.buildMessage json message = .ok insert ∧
    ∀ base, sender = .full base → ∃ owned, insert.toOwned json = .ok owned

def unparsable (json : SerdeJson) (message : CommunicationMessage) : Bool :=
  (MessageQueueInput.buildMessage json message).toOption.isNone

theorem steps_abort {p : Task Unit} {t : Trace} (h : Steps abort t p) : t = [] ∧ p = abort := by
  cases h with
  | refl => exact ⟨rfl, rfl⟩
  | @call _ _ a => exact a.elim

theorem canEnd_listen (m : CommunicationMessage) :
    (listen json sender taskLimit).CanEnd m ↔ unparsable json m = false := by
  show (∃ t rest, Steps (MessageQueueInput.spawnedTask json sender m) t rest ∧
    (listen json sender taskLimit).Ended m rest) ↔ _
  unfold MessageQueueInput.spawnedTask MessageQueueInput.handleMessage unparsable
  cases MessageQueueInput.buildMessage json m with
  | error e =>
    refine ⟨?_, fun h => by cases h⟩
    rintro ⟨t, rest, ht, hend⟩
    obtain ⟨rfl, rfl⟩ := steps_abort ht
    rcases hend with h | ⟨q, next, w, w', h, hpanic⟩
    · cases h
    · cases h
      cases hpanic
  | ok insert =>
    refine ⟨fun _ => rfl, fun _ => ?_⟩
    simp only [routeMessage, ReportSender.withMessageBody]
    cases sender with
    | disabled =>
      exact ⟨[⟨.outputPlugin insert, .success⟩, ⟨.ack, .ok ()⟩], _, .call (.call (.refl _)),
        .inl rfl⟩
    | full base =>
      cases insert.toOwned json with
      | error e => exact ⟨[], _, .refl _, .inr ⟨.panic, _, (), (), rfl, rfl⟩⟩
      | ok owned =>
        exact ⟨[⟨.outputPlugin insert, .success⟩, ⟨.publishMessage _ _ _, .ok ()⟩,
          ⟨.ack, .ok ()⟩], _, .call (.call (.call (.refl _))), .inl rfl⟩

theorem canEffect_listen (m : CommunicationMessage) :
    (listen json sender taskLimit).CanEffect Call.IsOutputPlugin m ↔
      ReachesPlugin json sender m := by
  show (∃ t rest, Steps (MessageQueueInput.spawnedTask json sender m) t rest ∧ _) ↔ _
  unfold MessageQueueInput.spawnedTask MessageQueueInput.handleMessage ReachesPlugin
  cases MessageQueueInput.buildMessage json m with
  | error e =>
    constructor
    · rintro ⟨t, rest, ht, e, he, _⟩
      obtain ⟨rfl, _⟩ := steps_abort ht
      cases he
    · rintro ⟨insert, h, _⟩
      cases h
  | ok insert =>
    simp only [Except.ok.injEq, exists_eq_left', routeMessage, ReportSender.withMessageBody]
    cases sender with
    | disabled =>
      refine ⟨fun _ base h => (by cases h), fun _ => ?_⟩
      exact ⟨[⟨.outputPlugin insert, .success⟩], _, .call (.refl _), _,
        List.mem_singleton_self _, trivial⟩
    | full base =>
      simp only [ReportSender.full.injEq, forall_eq']
      cases insert.toOwned json with
      | error e =>
        constructor
        · rintro ⟨t, rest, ht, e, he, _⟩
          cases ht with
          | refl => cases he
          | @call _ _ a => exact a.elim
        · rintro ⟨owned, h⟩
          cases h
      | ok owned =>
        refine ⟨fun _ => ⟨owned, rfl⟩, fun _ => ?_⟩
        exact ⟨[⟨.outputPlugin insert, .success⟩], _, .call (.refl _), _,
          List.mem_singleton_self _, trivial⟩

theorem open_listen : (listen json sender taskLimit).Open :=
  Consumer.open_free taskLimit (MessageQueueInput.spawnedTask json sender) true _ _

theorem canEnd_of_reachesPlugin {m : CommunicationMessage} (h : ReachesPlugin json sender m) :
    (listen json sender taskLimit).CanEnd m := by
  obtain ⟨insert, hbuild, _⟩ := h
  rw [canEnd_listen, unparsable, hbuild]
  rfl

theorem listen_inOrder_iff (messages : List CommunicationMessage) :
    (∀ s, (listen json sender taskLimit).Reachable messages () s →
      InOrder getOrderGroupId Call.IsOutputPlugin messages s.log) ↔
    AtMostOnePermit taskLimit (ReachesPlugin json sender) (unparsable json) messages :=
  (open_listen.inOrder_iff getOrderGroupId Call.IsOutputPlugin).trans
    (Consumer.serial_iff canEffect_listen (fun m => by simp [canEnd_listen])
      (fun _ => canEnd_of_reachesPlugin) messages)

end CommandService

/-! ## Both services -/

/-- **When the services keep the order of a group in every run.** -/
theorem inOrder_iff_atMostOnePermit (json : SerdeJson) (config : DataRouter.Config)
    (sender : CommandService.ReportSender) (taskLimit : ℕ)
    (messages : List CommunicationMessage) :
    ((∀ s, (DataRouter.router json config taskLimit).Reachable messages () s →
        InOrder getOrderGroupId DataRouter.Call.IsPublish messages s.log) ↔
      AtMostOnePermit taskLimit (DataRouter.Publishes json) (fun _ => false) messages) ∧
    ((∀ s, (CommandService.listen json sender taskLimit).Reachable messages () s →
        InOrder getOrderGroupId CommandService.Call.IsOutputPlugin messages s.log) ↔
      AtMostOnePermit taskLimit (CommandService.ReachesPlugin json sender)
        (CommandService.unparsable json) messages) :=
  ⟨DataRouter.router_inOrder_iff messages, CommandService.listen_inOrder_iff messages⟩

/-- Two messages of one group and two permits. -/
theorem not_inOrder_two_messages :
    let message : CommunicationMessage := ⟨.ok "group", .ok sampleText⟩
    (¬ ∀ s, (DataRouter.router sampleJson ⟨"errors", "registry"⟩ 2).Reachable
        [message, message] () s →
      InOrder getOrderGroupId DataRouter.Call.IsPublish [message, message] s.log) ∧
    ¬ ∀ s, (CommandService.listen sampleJson .disabled 2).Reachable [message, message] () s →
      InOrder getOrderGroupId CommandService.Call.IsOutputPlugin [message, message] s.log := by
  intro message
  have hkey : getOrderGroupId message = some "group" :=
    getOrderGroupId_eq_some.mpr ⟨rfl, by decide⟩
  constructor
  · rw [DataRouter.router_inOrder_iff]
    intro h
    have hpublishes : DataRouter.Publishes sampleJson message := by
      intro request hrequest
      cases hrequest
      exact List.cons_ne_nil _ _
    have := h 0 1 _ _ "group" (by decide) rfl rfl hkey hkey hpublishes hpublishes
    exact absurd this (by decide)
  · rw [CommandService.listen_inOrder_iff]
    intro h
    have hreaches : CommandService.ReachesPlugin sampleJson .disabled message :=
      ⟨sampleInsert, rfl, fun base h => (by cases h)⟩
    have := h 0 1 _ _ "group" (by decide) rfl rfl hkey hkey hreaches hreaches
    exact absurd this (by decide)

end CommonDataLayer
