import CommonDataLayer.CommandService.KafkaListen
import CommonDataLayer.DataRouter.AtLeastOnce

/-! # The data router and the command services on Kafka

Any number of command services behind the data router, each with its own consumer group of one
process, the topics they read and write, and the databases behind the output plugins. Records may be
written by anyone, databases change, offsets be committed, and processes be ended and started again, at
any moment. The registry and the cache may answer anything, and a plugin whatever its database allows.
The broker keeps every record, so also those whose publish it has confirmed.

* `Storage`: the databases, and what a plugin can have made of a message by now.
* `State.Sound`: what holds at every moment. All groups are safe, every publish that was confirmed is
  in its topic, and every resolution is one that the database allows.
* `nothing_lost`: each entry of a record that the router has committed was reported or lies in a
  topic that was found for its schema; and what a command service has committed of that topic went
  through its plugin.
-/
namespace CommonDataLayer

/-- `serde_json::to_vec`. -/
def BorrowedInsertMessage.toJson (m : BorrowedInsertMessage) : String :=
  s!"\x7b\"objectId\":\"{m.objectId.toText}\",\"schemaId\":\"{m.schemaId.toText}\"," ++
    s!"\"timestamp\":{m.timestamp},\"data\":{m.data.get}\x7d"

namespace DataRouter
open Interaction MessagingSystem
set_option autoImplicit false

/-- The router as a reader of its input topic. -/
def kafkaReader (json : SerdeJson) (config : Config) (taskLimit : ℕ) (inputTopic : String) :
    LogReader BorrowedMessage (String × ℕ) ℤ Answer where
  toConsumer := kafkaRouter json config taskLimit
  initial := .initial
  partition message := (message.topic, message.partition)
  offset message := message.offset
  reads partition := partition.1 = inputTopic
  stored consumer partition :=
    if partition.1 = inputTopic then consumer.stored[partition.2]? else none

/-- **What the router has stored covers only messages that it has delivered.** -/
theorem kafkaReader_guarantees (json : SerdeJson) (config : Config) (taskLimit : ℕ)
    (inputTopic : String) :
    (kafkaReader json config taskLimit inputTopic).Guarantees fun message t =>
      Delivered json config (kafkaCommunicationMessage message) t where
  mono _ _ more h := h.mono more
  stored := by
    rintro messages s ⟨topic, p⟩ o reads increasing reachable stored
    have hs := Consumer.sound reachable
    have hincrease : OffsetsIncrease messages := increasing.imp_of_mem fun hm hn hlt heq =>
      hlt (Prod.ext_iff.mpr ⟨(reads _ hm).trans (reads _ hn).symm, heq⟩)
    obtain ⟨rfl, hstored⟩ : topic = inputTopic ∧ s.world.stored[p]? = some o := by
      simpa [kafkaReader] using stored
    have hread {m : BorrowedMessage} (hm : m ∈ s.taken) : m.topic = topic :=
      reads m (hs.source ▸ List.mem_append_left _ hm)
    obtain ⟨hacked, i, offset, ⟨m, hm, rfl, rfl⟩, hle⟩ :=
      (bookkeeping hincrease reachable).stored p o hstored
    refine ⟨fun j n hn hpartition hno => ?_, m, List.mem_of_getElem? hm, ?_, hle⟩
    · obtain ⟨a, ha⟩ := hacked j n.offset ⟨n, hn, (Prod.mk.inj hpartition).2, rfl⟩ hno
      obtain ⟨t₁, t₂, next, hlog, htrace⟩ := hs.before (hs.taken_message hn) ha
      rw [hlog]
      exact (delivered_of_ack htrace).1.mono _
    · exact Prod.ext_iff.mpr ⟨hread (List.mem_of_getElem? hm), rfl⟩

/-- The calls of one entry. -/
theorem routed_of_mem {config : Config} {key : String} {entries : List DataRouterInsertMessage}
    {segments : List (Trace × Result Unit)} (h : RoutedAll config key entries segments)
    {entry : DataRouterInsertMessage} (hentry : entry ∈ entries) :
    ∃ segment ∈ segments, Routed config key entry segment.1 segment.2 := by
  induction h with
  | nil => cases hentry
  | cons hrouted _ ih =>
    rcases List.mem_cons.mp hentry with rfl | hentry
    · exact ⟨_, List.mem_cons_self, hrouted⟩
    · obtain ⟨segment, hsegment, hrouted⟩ := ih hentry
      exact ⟨segment, List.mem_cons_of_mem _ hsegment, hrouted⟩

end DataRouter

/-! ## The system -/

open Interaction MessagingSystem
set_option autoImplicit false

/-- The configuration of a command service. -/
structure ServiceConfig where
  sender : CommandService.ReportSender
  taskLimit : ℕ
  topics : List String

/-- The databases behind the output plugins. -/
structure Storage (ι : Type) where
  World : Type
  initial : World
  Changes : World → World → Prop
  /-- By now the plugin of the service can have resolved the message like this. -/
  Resolves : ι → BorrowedInsertMessage → CommandService.Resolution → World → Prop
  kept {i : ι} {message : BorrowedInsertMessage} {status : CommandService.Resolution} {w w' : World} :
    Changes w w' → Resolves i message status w → Resolves i message status w'

/-- Databases of which nothing is known. -/
def Storage.unknown {ι : Type} : Storage ι where
  World := Unit
  initial := ()
  Changes _ _ := True
  Resolves _ _ _ _ := True
  kept _ h := h

structure Deployment (ι : Type) where
  json : SerdeJson
  /-- The debug text of an error. -/
  debug : AnyhowError → String
  /-- `serde_json::to_vec` of a report. -/
  reportJson : CommandService.ReportBody → String
  router : DataRouter.Config
  taskLimit : ℕ
  inputTopic : String
  services : ι → ServiceConfig
  storage : Storage ι

/-- The broker has a record with this key and payload. -/
def Written (logs : String × ℕ → List BorrowedMessage) (topic key payload : String) : Prop :=
  ∃ p, ∃ record ∈ logs (topic, p), record.key = some (.ok key) ∧ record.payload = some (.ok payload)

namespace Deployment
variable {ι : Type}

def payloadText (D : Deployment ι) : DataRouter.Payload → String
  | .insert message => message.toJson
  | .report error => D.debug error

/-- A publish is confirmed once the record is there. -/
def routerAnswers (D : Deployment ι) (logs : String × ℕ → List BorrowedMessage) :
    Event DataRouter.Answer → Prop
  | ⟨.publishMessage topic key payload, .ok _⟩ => Written logs topic key (D.payloadText payload)
  | _ => True

def serviceAnswers (D : Deployment ι) (logs : String × ℕ → List BorrowedMessage)
    (world : D.storage.World) (i : ι) : Event CommandService.Answer → Prop
  | ⟨.publishMessage topic key report, .ok _⟩ => Written logs topic key (D.reportJson report)
  | ⟨.outputPlugin message, status⟩ => D.storage.Resolves i message status world
  | _ => True

abbrev routerReader (D : Deployment ι) : LogReader BorrowedMessage (String × ℕ) ℤ DataRouter.Answer :=
  DataRouter.kafkaReader D.json D.router D.taskLimit D.inputTopic

abbrev serviceReader (D : Deployment ι) (i : ι) :
    LogReader BorrowedMessage (String × ℕ) ℤ CommandService.Answer :=
  CommandService.kafkaReader D.json (D.services i).sender (D.services i).taskLimit (D.services i).topics

structure State (D : Deployment ι) where
  logs : String × ℕ → List BorrowedMessage
  world : D.storage.World
  router : Group D.routerReader
  service : (i : ι) → Group (D.serviceReader i)

/-- Nothing was written or read yet. -/
def State.initial (D : Deployment ι) : State D where
  logs _ := []
  world := D.storage.initial
  router := .initial
  service _ := .initial

/-! ## What holds at every moment -/

variable {D : Deployment ι} {s : State D}

structure State.Sound (s : State D) : Prop where
  ordered : D.routerReader.Ordered s.logs
  router : s.router.Safe
    (fun message t => DataRouter.Delivered D.json D.router (kafkaCommunicationMessage message) t) s.logs
  service : ∀ i, (s.service i).Safe (CommandService.Settled D.json (D.services i).sender) s.logs
  routed : ∀ x ∈ s.router.handling, ∀ e ∈ x.2, D.routerAnswers s.logs e
  reported : ∀ i, ∀ x ∈ (s.service i).handling, ∀ e ∈ x.2, D.serviceAnswers s.logs s.world i e

theorem Written.append {logs : String × ℕ → List BorrowedMessage} {topic key payload : String}
    (h : Written logs topic key payload) (record : BorrowedMessage) :
    Written (D.routerReader.append logs record) topic key payload := by
  obtain ⟨p, other, hother, hcontent⟩ := h
  exact ⟨p, other, (LogReader.prefix_append logs record (topic, p)).subset hother, hcontent⟩

theorem routerAnswers_append {logs : String × ℕ → List BorrowedMessage} {e : Event DataRouter.Answer}
    (h : D.routerAnswers logs e) (record : BorrowedMessage) :
    D.routerAnswers (D.routerReader.append logs record) e := by
  obtain ⟨call, a⟩ := e
  cases call with
  | publishMessage topic key payload =>
    cases a with
    | ok _ => exact Written.append h record
    | error _ => trivial
  | _ => trivial

theorem serviceAnswers_append {logs : String × ℕ → List BorrowedMessage} {world : D.storage.World} {i : ι}
    {e : Event CommandService.Answer} (h : D.serviceAnswers logs world i e) (record : BorrowedMessage) :
    D.serviceAnswers (D.routerReader.append logs record) world i e := by
  obtain ⟨call, a⟩ := e
  cases call with
  | publishMessage topic key report =>
    cases a with
    | ok _ => exact Written.append h record
    | error _ => trivial
  | outputPlugin message => exact h
  | _ => trivial

theorem serviceAnswers_changes {logs : String × ℕ → List BorrowedMessage} {world world' : D.storage.World}
    {i : ι} {e : Event CommandService.Answer} (h : D.serviceAnswers logs world i e)
    (changes : D.storage.Changes world world') : D.serviceAnswers logs world' i e := by
  obtain ⟨call, a⟩ := e
  cases call with
  | publishMessage topic key report =>
    cases a with
    | ok _ => exact h
    | error _ => trivial
  | outputPlugin message => exact D.storage.kept changes h
  | _ => trivial

theorem sound_initial : (State.initial D).Sound where
  ordered k := ⟨by simp [State.initial], .nil⟩
  router := Group.safe_initial
  service i := Group.safe_initial
  routed := by
    simp [State.initial, Group.initial, Group.handling, Pool.handling, Pool.taken, Pool.start]
  reported := by
    simp [State.initial, Group.initial, Group.handling, Pool.handling, Pool.taken, Pool.start]

/-! ## What the groups have done -/

/-- A task of the router has published an error report for the record. -/
def State.Reported (s : State D) (record : BorrowedMessage) : Prop :=
  ∃ t error, (record, t) ∈ s.router.handling ∧
    DataRouter.published D.router.errorTopicOrExchange DataRouter.serviceName (.report error) ∈ t ∧
    Written s.logs D.router.errorTopicOrExchange DataRouter.serviceName (D.debug error)

/-- The plugin of a command service has resolved the message, as its database allows; and if the
service reports, the resolution is in the topic of the reports. -/
def State.Resolved (s : State D) (i : ι) (insert : BorrowedInsertMessage) : Prop :=
  ∃ x ∈ (s.service i).handling, ∃ status, ⟨.outputPlugin insert, status⟩ ∈ x.2 ∧
    D.storage.Resolves i insert status s.world ∧
    ∀ base, (D.services i).sender = .full base → ∃ owned, insert.toOwned D.json = .ok owned ∧
      Written s.logs base.topic CommandService.reportKey
        (D.reportJson (CommandService.reportBody base owned status.display))

/-- The entry lies, as this message, in a topic that a task of the record found for its schema. -/
structure State.Placed (s : State D) (record : BorrowedMessage) (entry : DataRouterInsertMessage)
    (insert : BorrowedInsertMessage) (topic : String) (p : ℕ) (forwarded : BorrowedMessage) : Prop where
  stamped : ∃ now, insert = DataRouter.stamped entry now
  found : ∃ t found, (record, t) ∈ s.router.handling ∧
    DataRouter.Lookup D.router entry.schemaId found (.ok topic) ∧ found <:+: t
  written : forwarded ∈ s.logs (topic, p)
  key : forwarded.key = some (.ok (DataRouter.messageKey (kafkaCommunicationMessage record)))
  payload : forwarded.payload = some (.ok insert.toJson)

/-- The entry lies in its topic; and where a command service has committed it, the service has
resolved it. -/
def State.Forwarded (s : State D) (record : BorrowedMessage) (entry : DataRouterInsertMessage) : Prop :=
  ∃ insert topic p forwarded, s.Placed record entry insert topic p forwarded ∧
    ∀ i, topic ∈ (D.services i).topics → ∀ o, (s.service i).committed (topic, p) = some o →
      forwarded.offset ≤ o → s.Resolved i insert

/-- The text of every insert message that the router has published reads as that message. -/
def State.Readable (s : State D) : Prop :=
  ∀ x ∈ s.router.handling, ∀ topic key insert,
    DataRouter.published topic key (.insert insert) ∈ x.2 →
    D.json.insertMessage insert.toJson = .ok insert

theorem State.Sound.reported_of (h : s.Sound) {record : BorrowedMessage} {t : DataRouter.Trace}
    (ht : (record, t) ∈ s.router.handling) (hreport : DataRouter.Reported D.router t) :
    s.Reported record := by
  obtain ⟨error, he⟩ := hreport
  exact ⟨t, error, ht, he, h.routed _ ht _ he⟩

/-- What a command service has committed, its plugin has resolved. -/
theorem State.Sound.resolved (h : s.Sound) {i : ι} {k : String × ℕ} {o : ℤ}
    (hcommitted : (s.service i).committed k = some o) {record : BorrowedMessage}
    (hrecord : record ∈ s.logs k) (hle : record.offset ≤ o) {text : String}
    {insert : BorrowedInsertMessage}
    (hpayload : record.payload = some (.ok text)) (hreads : D.json.insertMessage text = .ok insert) :
    s.Resolved i insert := by
  obtain ⟨t, ht, insert', t₁, t₂, hbuild, rfl, hhandled⟩ :=
    ((h.service i).committed k o hcommitted).1 record hrecord hle
  have hinsert : insert' = insert := by
    simp only [CommandService.MessageQueueInput.buildMessage, kafkaCommunicationMessage, hpayload,
      decoded, Except.mapError, ok_bind, hreads, Except.ok.injEq] at hbuild
    exact hbuild.symm
  subst hinsert
  have hwritten := h.reported i _ ht
  generalize hok : (Except.ok () : Except CommandService.Report.Error Unit) = r at hhandled
  generalize hsender : (D.services i).sender = sender at hhandled
  cases hhandled with
  | unreported status =>
    have hresolves : D.storage.Resolves i insert' status s.world :=
      hwritten ⟨.outputPlugin insert', status⟩ (by simp)
    refine ⟨_, ht, status, by simp, hresolves, fun base hbase => ?_⟩
    rw [hsender] at hbase
    cases hbase
  | @reported base owned status delivery valid =>
    have hresolves : D.storage.Resolves i insert' status s.world :=
      hwritten ⟨.outputPlugin insert', status⟩ (by simp)
    refine ⟨_, ht, status, by simp, hresolves, fun base' hbase => ⟨owned, valid, ?_⟩⟩
    rw [hsender] at hbase
    cases hbase
    cases delivery with
    | error e => cases hok
    | ok u =>
      exact hwritten ⟨.publishMessage base.topic CommandService.reportKey
        (CommandService.reportBody base owned status.display), .ok u⟩ (by simp)

/-- An entry that a task has routed. -/
theorem State.Sound.forwarded (h : s.Sound) (hreads : s.Readable) {record : BorrowedMessage}
    {t : DataRouter.Trace} (ht : (record, t) ∈ s.router.handling) {entry : DataRouterInsertMessage}
    {calls : DataRouter.Trace} (hcalls : calls <:+: t)
    (hrouted : DataRouter.Routed D.router (DataRouter.messageKey (kafkaCommunicationMessage record))
      entry calls (.ok ())) : s.Forwarded record entry := by
  generalize hok : (Except.ok () : DataRouter.Result Unit) = r at hrouted
  cases hrouted with
  | unroutable failed => cases hok
  | @published now found topic hfound =>
    have hpublished := hcalls.subset (List.mem_cons_of_mem _ (List.mem_append_right _
      (List.mem_singleton_self _)))
    obtain ⟨p, forwarded, hforwarded, hkey, hpayload⟩ := h.routed _ ht _ hpublished
    have hinfix : found <:+: t :=
      List.IsInfix.trans ⟨[⟨.currentTimestamp, now⟩], [_], rfl⟩ hcalls
    exact ⟨_, topic, p, forwarded,
      ⟨⟨now, rfl⟩, ⟨t, found, ht, hfound, hinfix⟩, hforwarded, hkey, hpayload⟩,
      fun i _ o hcommitted hle =>
        h.resolved hcommitted hforwarded hle hpayload (hreads _ ht _ _ _ hpublished)⟩

/-- What became of the entries of a record that the router has committed. -/
theorem State.Sound.entry (h : s.Sound) (hreads : s.Readable) {p : ℕ} {record : BorrowedMessage} {o : ℤ}
    (hrecord : record ∈ s.logs (D.inputTopic, p))
    (hcommitted : s.router.committed (D.inputTopic, p) = some o) (hle : record.offset ≤ o)
    {entries : List DataRouterInsertMessage}
    (hcarries : DataRouter.Carries D.json (kafkaCommunicationMessage record) entries)
    {entry : DataRouterInsertMessage} (hentry : entry ∈ entries) :
    s.Reported record ∨ s.Forwarded record entry := by
  obtain ⟨t, ht, hdelivered⟩ := (h.router.committed _ o hcommitted).1 record hrecord hle
  cases hdelivered with
  | unparsed malformed reported => exact .inl (h.reported_of ht reported)
  | @routed entries' segments carries all calls reported =>
    obtain rfl := carries.eq hcarries
    obtain ⟨segment, hsegment, hrouted⟩ := DataRouter.routed_of_mem all hentry
    by_cases hok : segment.2 = .ok ()
    · refine .inr (h.forwarded hreads ht ?_ (hok ▸ hrouted))
      exact (List.infix_of_mem_flatten (List.mem_map_of_mem hsegment)).trans calls.isInfix
    · exact .inl (h.reported_of ht (reported ⟨segment, hsegment, hok⟩))

/-! ## Every run -/

variable [DecidableEq ι]

inductive Step (D : Deployment ι) : State D → State D → Prop where
  | write {s : State D} {record : BorrowedMessage}
      (last : ∀ other ∈ s.logs (record.topic, record.partition), other.offset < record.offset) :
      Step D s { s with logs := D.routerReader.append s.logs record }
  | storage {s : State D} {world : D.storage.World} (changes : D.storage.Changes s.world world) :
      Step D s { s with world := world }
  | router {s : State D} {group : Group D.routerReader}
      (step : Group.Step s.logs (D.routerAnswers s.logs) s.router group) :
      Step D s { s with router := group }
  | service {s : State D} {i : ι} {group : Group (D.serviceReader i)}
      (step : Group.Step s.logs (D.serviceAnswers s.logs s.world i) (s.service i) group) :
      Step D s { s with service := Function.update s.service i group }

abbrev Reachable (D : Deployment ι) (s : State D) : Prop :=
  Relation.ReflTransGen D.Step (State.initial D) s

theorem State.Sound.step {s' : State D} (h : s.Sound) (hstep : D.Step s s') : s'.Sound := by
  cases hstep with
  | @write record last =>
    refine ⟨h.ordered.append last, h.router.append last, fun i => (h.service i).append last, ?_, ?_⟩
    · exact fun x hx e he => routerAnswers_append (h.routed x hx e he) record
    · exact fun i x hx e he => serviceAnswers_append (h.reported i x hx e he) record
  | storage changes =>
    exact ⟨h.ordered, h.router, h.service, h.routed,
      fun i x hx e he => serviceAnswers_changes (h.reported i x hx e he) changes⟩
  | @router group step =>
    refine ⟨h.ordered, h.router.step (DataRouter.kafkaReader_guarantees _ _ _ _) h.ordered step,
      h.service, fun x hx e he => ?_, h.reported⟩
    rcases h.router.answered step hx he with ⟨y, hy, he⟩ | hanswers
    · exact h.routed y hy e he
    · exact hanswers
  | @service i group step =>
    have hsafe := (h.service i).step (CommandService.kafkaReader_guarantees _ _ _ _) h.ordered step
    refine ⟨h.ordered, h.router, fun j => ?_, h.routed, fun j x hx e he => ?_⟩
    · by_cases hj : j = i
      · subst hj
        simpa using hsafe
      · simpa [hj] using h.service j
    · by_cases hj : j = i
      · subst hj
        have hx : x ∈ group.handling := by simpa using hx
        rcases (h.service j).answered step hx he with ⟨y, hy, he⟩ | hanswers
        · exact h.reported j y hy e he
        · exact hanswers
      · exact h.reported j x (by simpa [hj] using hx) e he

theorem sound (h : D.Reachable s) : s.Sound := by
  induction h with
  | refl => exact sound_initial
  | tail _ hstep ih => exact ih.step hstep

/-! ## One record on its way -/

theorem Reachable.router {s : State D} (h : D.Reachable s) {group : Group D.routerReader}
    (hrun : Relation.ReflTransGen (Group.Step s.logs (D.routerAnswers s.logs)) s.router group) :
    D.Reachable { s with router := group } := by
  induction hrun with
  | refl => exact h
  | tail _ hstep ih => exact ih.tail (.router hstep)

theorem Reachable.service {s : State D} (h : D.Reachable s) {i : ι} {group : Group (D.serviceReader i)}
    (hrun : Relation.ReflTransGen (Group.Step s.logs (D.serviceAnswers s.logs s.world i))
      (s.service i) group) :
    D.Reachable { s with service := Function.update s.service i group } := by
  induction hrun with
  | refl => simpa using h
  | tail _ hstep ih =>
    have hnext := Step.service (D := D) (s := { s with service := Function.update s.service i _ })
      (i := i) (by simpa using hstep)
    simpa using ih.tail hnext

theorem Reachable.storage {s : State D} (h : D.Reachable s) {world : D.storage.World}
    (hchanges : Relation.ReflTransGen D.storage.Changes s.world world) :
    D.Reachable { s with world := world } := by
  induction hchanges with
  | refl => exact h
  | tail _ changes ih => exact ih.tail (.storage changes)

def oneService (storage : Storage Unit) : Deployment Unit where
  json := sampleJson
  debug _ := "error"
  reportJson _ := "report"
  router := ⟨"errors", "registry"⟩
  taskLimit := 1
  inputTopic := "input"
  services _ := ⟨.full ⟨"reports", "postgres"⟩, 1, ["inserts"]⟩
  storage := storage

def inputRecord : BorrowedMessage := ⟨"input", 0, 0, some (.ok ""), some (.ok batchText)⟩
def otherRecord : BorrowedMessage := ⟨"others", 0, 0, some (.ok ""), some (.ok otherText)⟩
def insertRecord : BorrowedMessage := ⟨"inserts", 0, 0, some (.ok ""), some (.ok sampleText)⟩
def reportRecord : BorrowedMessage :=
  ⟨"reports", 0, 0, some (.ok CommandService.reportKey), some (.ok "report")⟩

/-- The topics with all four records. -/
def sampleLogs : String × ℕ → List BorrowedMessage :=
  let append := (oneService .unknown).routerReader.append
  append (append (append (append (fun _ => []) inputRecord) otherRecord) insertRecord) reportRecord

/-- A consumer that has stored the only message of its partition. -/
def storedFirst (topic : String) (record : BorrowedMessage) : KafkaConsumer :=
  { KafkaConsumer.initial.add record with
    queue := (KafkaConsumer.initial.add record).queue.insert 0 ⟨[], topic, 0, 0⟩
    stored := KafkaConsumer.initial.stored.insert 0 0 }

def routerCalls : DataRouter.Trace :=
  [⟨.currentTimestamp, (0 : ℤ)⟩, ⟨.cacheGetMut 1, some "others"⟩,
    DataRouter.published "others" "" (.insert otherInsert),
    ⟨.currentTimestamp, (0 : ℤ)⟩, ⟨.cacheGetMut 0, some "inserts"⟩,
    DataRouter.published "inserts" "" (.insert sampleInsert), ⟨.ack, .ok ()⟩]

def routerDone (storage : Storage Unit) : Group (oneService storage).routerReader where
  committed := Function.update (fun _ => none) ("input", 0) (some 0)
  start _ := none
  fetched := [inputRecord]
  pool := ⟨[], none, [(inputRecord, some (.ret ()))], routerCalls.map fun e => (0, e),
    storedFirst "input" inputRecord, false⟩
  past := []

def serviceCalls : CommandService.Trace :=
  [⟨.outputPlugin sampleInsert, .success⟩, ⟨.publishMessage "reports" CommandService.reportKey
    (CommandService.reportBody ⟨"reports", "postgres"⟩ ⟨0, 0, 0, .number (.posInt 1)⟩ "success"),
      .ok ()⟩, ⟨.ack, .ok ()⟩]

def serviceDone (storage : Storage Unit) : Group ((oneService storage).serviceReader ()) where
  committed := Function.update (fun _ => none) ("inserts", 0) (some 0)
  start _ := none
  fetched := [insertRecord]
  pool := ⟨[], none, [(insertRecord, some (.ret ()))], serviceCalls.map fun e => (0, e),
    Function.update (fun _ => .initial) "inserts" (storedFirst "inserts" insertRecord), false⟩
  past := []

section OneMessage
variable {M K O Q : Type} {A : Q → Type} [DecidableEq K] [LinearOrder O] {R : LogReader M K O A}
  {logs : K → List M} {answers : Event A → Prop} {m : M}

/-- A group whose process has taken one message. -/
def oneTask (m : M) (rest : Program A Unit) (calls : List (Event A)) (w : R.World) : Group R where
  committed _ := none
  start _ := none
  fetched := [m]
  pool := ⟨[], none, [(m, some rest)], calls.map fun e => (0, e), w, false⟩
  past := []

theorem oneTask_call {calls : List (Event A)} {w w' : R.World} {q : Q} {next : A q → Program A Unit}
    {a : A q} (answered : R.answer m q w a w') (allowed : answers ⟨q, a⟩) :
    Group.Step logs answers (oneTask (R := R) m (.call q next) calls w)
      (oneTask m (next a) (calls ++ [⟨q, a⟩]) w') := by
  have hanswer := Consumer.Step.answer (C := R.toConsumer)
    (s := (oneTask (R := R) m (.call q next) calls w).pool) (i := 0) rfl rfl answered
  have hpool : R.Step (oneTask (R := R) m (.call q next) calls w).pool
      (oneTask (R := R) m (next a) (calls ++ [⟨q, a⟩]) w').pool := by
    simpa [oneTask] using hanswer
  refine .work hpool fun e he => ?_
  have he : e ∈ (calls.map fun e => ((0 : ℕ), e)) ++ [(0, ⟨q, a⟩)] := by simpa [oneTask] using he
  rcases List.mem_append.mp he with he | he
  · exact .inl he
  · rw [List.mem_singleton.mp he]
    exact .inr allowed

/-- The task makes its calls. -/
theorem oneTask_run {calls : List (Event A)} {w : R.World} {p p' : Program A Unit} {t : List (Event A)}
    (h : Steps p t p') (answered : ∀ e ∈ t, R.answer m e.1 w e.2 w ∧ answers e) :
    Relation.ReflTransGen (Group.Step logs answers) (oneTask (R := R) m p calls w)
      (oneTask m p' (calls ++ t) w) := by
  induction h generalizing calls with
  | refl p => simpa using Relation.ReflTransGen.refl
  | @call q next a t p' rest ih =>
    obtain ⟨hanswer, hallowed⟩ := answered ⟨q, a⟩ List.mem_cons_self
    rw [← List.singleton_append, ← List.append_assoc]
    exact (ih fun e he => answered e (List.mem_cons_of_mem _ he)).head (oneTask_call hanswer hallowed)

/-- From the first message to its committed offset. -/
theorem oneTask_committed (logs : K → List M) (answers : Event A → Prop) {w w' : R.World}
    {t : List (Event A)} {q : Q} {next : A q → Program A Unit}
    {a : A q} {k : K} {o : O} (reads : R.reads (R.partition m))
    (first : [m] <+: R.readFrom none (logs (R.partition m))) (taken : R.take m R.initial w)
    (permit : 0 < R.limit) (calls : Steps (R.body m) t (.call q next))
    (answered : ∀ e ∈ t, R.answer m e.1 w e.2 w ∧ answers e) (last : R.answer m q w a w')
    (allowed : answers ⟨q, a⟩) (stored : R.stored w' k = some o) :
    Relation.ReflTransGen (Group.Step logs answers) .initial
      { oneTask (R := R) m (next a) (t ++ [⟨q, a⟩]) w' with
        committed := Function.update (fun _ => none) k (some o) } := by
  let waiting (s : Pool M A R.World) : Group R := ⟨fun _ => none, fun _ => none, [m], s, []⟩
  have hfetch : Group.Step logs answers .initial (waiting ⟨[m], none, [], [], R.initial, false⟩) :=
    .fetch reads first
  have htake : Group.Step logs answers (waiting ⟨[m], none, [], [], R.initial, false⟩)
      (waiting ⟨[], some m, [], [], w, false⟩) := .work (.take rfl rfl rfl taken) fun _ he => .inl he
  have hspawn : Group.Step logs answers (waiting ⟨[], some m, [], [], w, false⟩)
      (oneTask m (R.body m) [] w) := .work (.spawn rfl rfl permit) fun _ he => .inl he
  exact ((((Relation.ReflTransGen.single hfetch).tail htake).tail hspawn).trans
    (oneTask_run calls answered)).tail (oneTask_call last allowed) |>.tail (.commit stored)

end OneMessage

variable {storage : Storage Unit} {world : storage.World}

theorem router_run : Relation.ReflTransGen
    (Group.Step sampleLogs ((oneService storage).routerAnswers sampleLogs)) .initial (routerDone storage) := by
  let R := (oneService storage).routerReader
  have hother : Written sampleLogs "others" "" otherInsert.toJson :=
    ⟨0, otherRecord, List.mem_singleton_self otherRecord, rfl, by decide⟩
  have hwritten : Written sampleLogs "inserts" "" sampleInsert.toJson :=
    ⟨0, insertRecord, List.mem_singleton_self insertRecord, rfl, by decide⟩
  obtain ⟨next, hcalls, hnext⟩ : ∃ next, Steps (R.body inputRecord) (routerCalls.take 6)
      (.call DataRouter.Call.ack next) ∧ next (.ok ()) = .ret () := by
    have hmessage : kafkaCommunicationMessage inputRecord = ⟨.ok "", .ok batchText⟩ := rfl
    have hbody : R.body inputRecord = _ := DataRouter.body_kafkaRouter _ _ _ inputRecord
    rw [hbody, hmessage, DataRouter.handleMessage]
    simp only [oneService, DataRouter.parseRequest_batchText]
    exact ⟨_, .call (.call (.call (.call (.call (.call (.refl _)))))), rfl⟩
  have hack : R.answer inputRecord DataRouter.Call.ack (.add .initial inputRecord) (.ok ())
      (storedFirst "input" inputRecord) := ⟨rfl, rfl, false, rfl⟩
  have hrun := oneTask_committed (R := R) (m := inputRecord) (k := ("input", 0)) (o := (0 : ℤ))
    sampleLogs ((oneService storage).routerAnswers sampleLogs) rfl ⟨[], rfl⟩ ⟨rfl, rfl⟩ Nat.one_pos hcalls
    (fun e he => ?_) hack trivial rfl
  · rw [hnext] at hrun
    exact hrun
  · simp only [routerCalls, List.take_succ_cons, List.take_zero, List.mem_cons, List.not_mem_nil,
      or_false] at he
    rcases he with rfl | rfl | rfl | rfl | rfl | rfl
    · exact ⟨rfl, trivial⟩
    · exact ⟨rfl, trivial⟩
    · exact ⟨rfl, hother⟩
    · exact ⟨rfl, trivial⟩
    · exact ⟨rfl, trivial⟩
    · exact ⟨rfl, hwritten⟩

theorem service_run (resolves : storage.Resolves () sampleInsert .success world) : Relation.ReflTransGen
    (Group.Step sampleLogs ((oneService storage).serviceAnswers sampleLogs world ())) .initial
      (serviceDone storage) := by
  let R := (oneService storage).serviceReader ()
  have hwritten : Written sampleLogs "reports" CommandService.reportKey "report" :=
    ⟨0, reportRecord, List.mem_singleton_self reportRecord, rfl, rfl⟩
  obtain ⟨next, hcalls, hnext⟩ : ∃ next, Steps (R.body insertRecord) (serviceCalls.take 2)
      (.call CommandService.Call.ack next) ∧ next (.ok ()) = .ret () :=
    ⟨_, .call (.call (.refl _)), rfl⟩
  let consumers : String → KafkaConsumer :=
    Function.update (fun _ => .initial) "inserts" (.add .initial insertRecord)
  have hack : R.answer insertRecord CommandService.Call.ack consumers (.ok ())
      (Function.update consumers "inserts" (storedFirst "inserts" insertRecord)) :=
    ⟨rfl, rfl, false, _, rfl, rfl⟩
  rw [Function.update_idem] at hack
  have hrun := oneTask_committed (R := R) (m := insertRecord) (k := ("inserts", 0)) (o := (0 : ℤ))
    sampleLogs ((oneService storage).serviceAnswers sampleLogs world ()) (List.mem_singleton_self "inserts")
    ⟨[], rfl⟩ ⟨rfl, rfl⟩ Nat.one_pos hcalls (fun e he => ?_) hack trivial rfl
  · rw [hnext] at hrun
    exact hrun
  · simp only [serviceCalls, List.take_succ_cons, List.take_zero, List.mem_cons, List.not_mem_nil,
      or_false] at he
    rcases he with rfl | rfl
    · exact ⟨rfl, resolves⟩
    · exact ⟨rfl, hwritten⟩

/-- The four records were written, and both processes have committed what they read. -/
def sampleState (storage : Storage Unit) (world : storage.World) : State (oneService storage) :=
  ⟨sampleLogs, world, routerDone storage, fun _ => serviceDone storage⟩

theorem reachable_sampleState (changes : Relation.ReflTransGen storage.Changes storage.initial world)
    (resolves : storage.Resolves () sampleInsert .success world) :
    (oneService storage).Reachable (sampleState storage world) := by
  let append := (oneService storage).routerReader.append
  let state (logs : String × ℕ → List BorrowedMessage) (world : storage.World) : State (oneService storage) :=
    ⟨logs, world, .initial, fun _ => .initial⟩
  let first := append (fun _ => []) inputRecord
  have hchanged : (oneService storage).Reachable (state (fun _ => []) world) :=
    Reachable.storage (D := oneService storage) .refl changes
  have hinput : (oneService storage).Step (state (fun _ => []) world) (state first world) :=
    .write fun _ h => absurd h List.not_mem_nil
  let second := append first otherRecord
  have hother : (oneService storage).Step (state first world) (state second world) :=
    .write fun _ h => absurd h List.not_mem_nil
  have hinsert : (oneService storage).Step (state second world) (state (append second insertRecord) world) :=
    .write fun _ h => absurd h List.not_mem_nil
  have hreport : (oneService storage).Step (state (append second insertRecord) world) (state sampleLogs world) :=
    .write fun _ h => absurd h List.not_mem_nil
  have hwritten : (oneService storage).Reachable (state sampleLogs world) :=
    (((hchanged.tail hinput).tail hother).tail hinsert).tail hreport
  have hrun := (hwritten.router router_run).service (i := ()) (service_run resolves)
  have hservice : Function.update (state sampleLogs world).service () (serviceDone storage) =
      fun _ => serviceDone storage := funext fun _ => rfl
  rw [hservice] at hrun
  exact hrun

theorem readable_sampleState : (sampleState storage world).Readable := by
  intro x hx topic key insert hpublished
  obtain ⟨i, -, hcalls⟩ :=
    Pool.mem_handling.mp (show (x.1, x.2) ∈ (routerDone storage).pool.handling from hx)
  rw [hcalls, Pool.mem_logOf] at hpublished
  simp only [routerDone, routerCalls, DataRouter.published, List.map_cons, List.map_nil, List.mem_cons,
    List.not_mem_nil, Prod.mk.injEq, Sigma.mk.injEq, reduceCtorEq, false_and, and_false, or_false,
    false_or, DataRouter.Call.publishMessage.injEq, DataRouter.Payload.insert.injEq] at hpublished
  obtain ⟨-, ⟨-, -, rfl⟩, -⟩ | ⟨-, ⟨-, -, rfl⟩, -⟩ := hpublished
  · show sampleJson.insertMessage otherInsert.toJson = .ok otherInsert
    decide
  · show sampleJson.insertMessage sampleInsert.toJson = .ok sampleInsert
    decide

/-! ## At least once -/

/-- **Nothing is lost between the input topic and the plugins**, however often the processes end. -/
theorem nothing_lost (D : Deployment ι) (s : State D) (reachable : D.Reachable s) (reads : s.Readable)
    (p : ℕ) (record : BorrowedMessage) (o : ℤ) (written : record ∈ s.logs (D.inputTopic, p))
    (committed : s.router.committed (D.inputTopic, p) = some o) (le : record.offset ≤ o) :
    (∀ e, DataRouter.Malformed D.json (kafkaCommunicationMessage record) e → s.Reported record) ∧
    ∀ entries, DataRouter.Carries D.json (kafkaCommunicationMessage record) entries →
      ∀ entry ∈ entries, s.Reported record ∨ s.Forwarded record entry := by
  have hsound := sound reachable
  refine ⟨fun e he => ?_, fun entries hcarries entry hentry => ?_⟩
  · obtain ⟨t, ht, hdelivered⟩ := (hsound.router.committed _ o committed).1 record written le
    cases hdelivered with
    | unparsed malformed reported => exact hsound.reported_of ht reported
    | routed carries _ _ _ => exact absurd he carries.not_malformed
  · exact hsound.entry reads written committed le hcarries hentry

/-- The entries of a batch have been routed, and the one that is stored was reported. -/
theorem nothing_lost_batch : ∃ s : State (oneService .unknown), (oneService .unknown).Reachable s ∧
    (s.service ()).committed ("inserts", 0) = some 0 ∧
    ∀ entry ∈ [otherEntry, sampleEntry], s.Reported inputRecord ∨ s.Forwarded inputRecord entry := by
  have hreachable : (oneService .unknown).Reachable (sampleState .unknown ()) :=
    reachable_sampleState .refl trivial
  have hlost := nothing_lost (oneService .unknown) (sampleState .unknown ()) hreachable
    readable_sampleState 0 inputRecord 0 (List.mem_singleton_self inputRecord) rfl (Int.le_refl 0)
  exact ⟨sampleState .unknown (), hreachable, rfl, hlost.2 _ DataRouter.carries_batchText⟩

end Deployment
end CommonDataLayer
