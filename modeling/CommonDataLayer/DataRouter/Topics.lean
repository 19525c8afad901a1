import CommonDataLayer.Foundations.Interference
import CommonDataLayer.Foundations.TaskPool
import CommonDataLayer.DataRouter.Delivery
import CommonDataLayer.QueryRouter.Cache
import CommonDataLayer.SchemaRegistry.RpcRecords
import CommonDataLayer.Wire.UuidText

/-! # The topics of the router

The cache is shared by all tasks and never invalidated; what is put into it was read from the registry
some time before. Meanwhile the registry may change in any way, also while it answers a request.

* `Memory`: the graphs of the registry since the process has started, and the cache.
* `topicsProtocol`: a task only uses a topic that the cache or the registry gave it for the schema.
* `published_inForce`: every message was published to a topic that its schema has had in the registry
  since the process has started.
-/
namespace CommonDataLayer.DataRouter
open Interaction MessagingSystem Relation
open QueryRouter (LruCache)
open SchemaRegistry (Broker Graph RpcCrates World SchemaRegistryImpl.getSchemaTopic parseUuid_eq_ok)
set_option autoImplicit false

/-! ## The registry and the cache -/

/-- The graphs of the registry, the present one first. -/
abbrev History : Type := List Graph

def topicAt (g : Graph) (schemaId : Uuid) : Option String :=
  (g.propertyAt schemaId .schemaTopicName).bind Value.asStr

def InForce (history : History) (schemaId : Uuid) (topic : String) : Prop :=
  ∃ g ∈ history, topicAt g schemaId = some topic

/-- The registry gets another graph. -/
def Changes (history history' : History) : Prop := ∃ g, history' = g :: history

/-- A call of a handler, on the present graph. -/
def Serves (broker : Broker) (q : SchemaRegistry.Call) (history : History) (a : SchemaRegistry.Answer q)
    (history' : History) : Prop :=
  ∃ w : World, history.head? = some w.graph ∧ a = (SchemaRegistry.answer broker q w).1 ∧
    history' = (SchemaRegistry.answer broker q w).2.graph :: history

structure Memory (lru : LruCache Uuid String) where
  history : History
  cache : lru.Contents

variable {lru : LruCache Uuid String} {crates : RpcCrates} {broker : Broker}

/-- What the registry and the cache answer; a request of the registry may also fail. Every other call may
be answered in any way, and every call may panic or end the process. -/
def registryHost (lru : LruCache Uuid String) (crates : RpcCrates) (broker : Broker) :
    Host CommunicationMessage Answer where
  World := Memory lru
  take _ w w' := ReflTransGen Changes w.history w'.history ∧ w'.cache = w.cache
  takeAborts _ _ := True
  answer _ call w a w' := match call, a with
    | .cacheGetMut schemaId, a => ReflTransGen Changes w.history w'.history ∧
        a = (lru.getMut schemaId w.cache).1 ∧ w'.cache = (lru.getMut schemaId w.cache).2
    | .cacheInsert schemaId topic, _ => ReflTransGen Changes w.history w'.history ∧
        w'.cache = lru.insert schemaId topic w.cache
    | .getSchemaTopic id, .ok topic => Interleaved Changes (Serves broker)
        (SchemaRegistryImpl.getSchemaTopic crates id).run w.history (.ok topic) w'.history ∧
        w'.cache = w.cache
    | _, _ => ReflTransGen Changes w.history w'.history ∧ w'.cache = w.cache
  panics _ _ w w' := ReflTransGen Changes w.history w'.history ∧ w'.cache = w.cache
  aborts _ _ _ := True

def registryRouter (lru : LruCache Uuid String) (crates : RpcCrates) (broker : Broker) (json : SerdeJson)
    (config : Config) (taskLimit : ℕ) : Consumer CommunicationMessage Answer where
  toHost := registryHost lru crates broker
  limit := taskLimit
  body := spawnedTask json config
  fetchErrorAborts := false

/-! ## The history -/

section History
variable {history history' : History} {schemaId : Uuid} {topic : String}

theorem subset_of_changes (h : ReflTransGen Changes history history') : history ⊆ history' := by
  induction h with
  | refl => exact List.Subset.refl _
  | tail _ step ih =>
    obtain ⟨g, rfl⟩ := step
    exact fun other hother => List.mem_cons_of_mem _ (ih hother)

theorem InForce.later (h : InForce history schemaId topic)
    (hsteps : ReflTransGen Changes history history') : InForce history' schemaId topic := by
  obtain ⟨g, hg, htopic⟩ := h
  exact ⟨g, subset_of_changes hsteps hg, htopic⟩

theorem changes_of_serves (q : SchemaRegistry.Call) (history : History) (a : SchemaRegistry.Answer q)
    (history' : History) (h : Serves broker q history a history') :
    ReflTransGen Changes history history' := by
  obtain ⟨w, -, -, rfl⟩ := h
  exact .single ⟨_, rfl⟩

/-- A topic that the registry answers, it has at some moment of the request. -/
theorem inForce_of_getSchemaTopic {id : String} (hparse : crates.parseUuid id = .ok schemaId)
    (h : Interleaved Changes (Serves broker) (SchemaRegistryImpl.getSchemaTopic crates id).run history
      (.ok topic) history') : InForce history' schemaId topic := by
  rw [SchemaRegistryImpl.getSchemaTopic, parseUuid_eq_ok hparse] at h
  have h : Interleaved Changes (Serves broker) ((SchemaRegistry.getSchemaTopic schemaId).run.bind fun r =>
      .ret (r.mapError (SchemaRegistry.RegistryError.status crates.toCrates))) history (.ok topic)
        history' := h
  obtain ⟨r, mid, hread, hreturn⟩ := interleaved_bind h
  obtain ⟨hr, hlater⟩ := interleaved_ret hreturn
  obtain rfl : r = .ok topic := by
    cases r with
    | error e => cases hr
    | ok found => exact congrArg _ (Except.ok.inj hr).symm
  obtain ⟨_, connected, _, -, ⟨_, -, rfl, -⟩, hread⟩ := interleaved_call hread
  obtain ⟨before, found, after, -, ⟨w, hhead, hfound, rfl⟩, hread⟩ := interleaved_call hread
  cases found with
  | error e => cases (interleaved_ret hread).1
  | ok value =>
    have hvalue : value = w.graph.propertyAt schemaId .schemaTopicName := Except.ok.inj hfound
    cases value with
    | none => cases (interleaved_ret hread).1
    | some value =>
      cases value with
      | string text =>
        obtain ⟨htopic, hrest⟩ := interleaved_ret hread
        refine ⟨w.graph, subset_of_changes (hrest.trans hlater) ?_, ?_⟩
        · exact List.mem_cons_of_mem _ (List.mem_of_mem_head? hhead)
        · rw [topicAt, ← hvalue, Except.ok.inj htopic]
          rfl
      | _ => cases (interleaved_ret hread).1

end History

/-! ## Where a task has its topics from -/

/-- The topics that a task was given so far, each with the text of its schema. -/
def topicsProtocol : Protocol Answer (List (String × String)) where
  Allows found
    | .cacheInsert schemaId topic => (schemaId.toText, topic) ∈ found
    | .publishMessage topic _ (.insert message) => (message.schemaId.toText, topic) ∈ found
    | _ => True
  after found
    | .cacheGetMut schemaId, some topic => (schemaId.toText, topic) :: found
    | .getSchemaTopic id, .ok topic => (id, topic) :: found
    | _, _ => found

section Tasks
variable {config : Config} {json : SerdeJson} {found : List (String × String)}

theorem mem_after {pair : String × String} (h : pair ∈ found) (q : Call) (a : Answer q) :
    pair ∈ topicsProtocol.after found q a := by
  cases q with
  | cacheGetMut schemaId =>
    cases a with
    | none => exact h
    | some topic => exact List.mem_cons_of_mem _ h
  | getSchemaTopic id =>
    cases a with
    | error e => exact h
    | ok topic => exact List.mem_cons_of_mem _ h
  | _ => exact h

/-- A task keeps what it was given. -/
theorem mem_reached {pair : String × String} (h : pair ∈ found) (t : Trace) :
    pair ∈ topicsProtocol.reached found t := by
  induction t generalizing found with
  | nil => exact h
  | cons e t ih => exact ih (mem_after h e.1 e.2)

theorem follows_getSchemaTopic (schemaId : Uuid) : (getSchemaTopic config schemaId).Follows topicsProtocol
    (fun r reached => ∀ topic, r = .ok topic → (schemaId.toText, topic) ∈ reached) found := by
  refine ⟨trivial, fun cached => ?_⟩
  cases cached with
  | some topic =>
    intro topic' htopic
    rw [← Except.ok.inj htopic]
    exact List.mem_cons_self
  | none =>
    refine ⟨trivial, fun client => ?_⟩
    cases client with
    | error e => exact fun _ => nofun
    | ok _ =>
      refine ⟨trivial, fun answer => ?_⟩
      cases answer with
      | error e => exact fun _ => nofun
      | ok topic =>
        refine ⟨List.mem_cons_self, fun _ topic' htopic => ?_⟩
        rw [← Except.ok.inj htopic]
        exact List.mem_cons_self

theorem follows_sendMessage {topic key : String} {payload : Payload}
    (h : topicsProtocol.Allows found (.publishMessage topic key payload)) :
    (sendMessage topic key payload).Follows topicsProtocol (fun _ _ => True) found := by
  refine ⟨h, fun sent => ?_⟩
  cases sent with
  | error e => exact ⟨trivial, fun a => a.elim⟩
  | ok _ => trivial

theorem follows_route (key : String) (entry : DataRouterInsertMessage) :
    (route config key entry).Follows topicsProtocol (fun _ _ => True) found := by
  refine ⟨trivial, fun now => (follows_getSchemaTopic entry.schemaId).bind fun r reached hr => ?_⟩
  cases r with
  | error e => trivial
  | ok topic =>
    have hallowed : topicsProtocol.Allows reached (.publishMessage topic key (.insert (stamped entry now))) :=
      hr topic rfl
    exact (follows_sendMessage hallowed).bind fun _ _ _ => trivial

theorem follows_routeEntries (key : String) (entries : List DataRouterInsertMessage)
    (result : Result Unit) :
    (routeEntries config key entries result).Follows topicsProtocol (fun _ _ => True) found := by
  induction entries generalizing result found with
  | nil => trivial
  | cons entry rest ih =>
    rw [routeEntries_cons]
    exact (follows_route key entry).bind fun _ _ _ => ih _

theorem follows_ack {f : Except Error Unit → Task Unit} (herror : ∀ e, f (.error e) = abort)
    (hok : f (.ok ()) = .ret ()) : (ack.bind f).Follows topicsProtocol (fun _ _ => True) found := by
  refine ⟨trivial, fun a => ?_⟩
  show (f a).Follows _ _ _
  cases a with
  | error e =>
    rw [herror]
    exact ⟨trivial, fun a => a.elim⟩
  | ok _ =>
    rw [hok]
    trivial

theorem follows_finishMessage (result : Result Unit) :
    (finishMessage config result).Follows topicsProtocol (fun _ _ => True) found := by
  cases result with
  | ok _ => exact follows_ack (fun _ => rfl) rfl
  | error e =>
    have hallowed : topicsProtocol.Allows found
        (.publishMessage config.errorTopicOrExchange serviceName (.report e)) := trivial
    exact (follows_sendMessage hallowed).bind fun _ _ _ => follows_ack (fun _ => rfl) rfl

theorem follows_spawnedTask (message : CommunicationMessage) :
    (spawnedTask json config message).Follows topicsProtocol (fun _ _ => True) [] := by
  show (handleMessage json config message).Follows topicsProtocol _ _
  unfold handleMessage
  cases parseRequest json message with
  | error e => exact follows_finishMessage _
  | ok request =>
    show ((routeRequest config (messageKey message) request).bind _).Follows _ _ _
    rw [routeRequest_eq]
    exact (follows_routeEntries _ _ _).bind fun _ _ _ => follows_finishMessage _

end Tasks

/-! ## The pool of tasks -/

section Pool
variable {json : SerdeJson} {config : Config} {taskLimit : ℕ} {messages : List CommunicationMessage}

abbrev RoutingState (lru : LruCache Uuid String) : Type := Pool CommunicationMessage Answer (Memory lru)

/-- Every topic of the cache, and every topic that a task was given, is or was that of its schema. -/
structure Remembered (s : RoutingState lru) : Prop where
  cached : ∀ schemaId topic, lru.Holds s.world.cache schemaId topic →
    InForce s.world.history schemaId topic
  found : ∀ i, ∀ pair ∈ topicsProtocol.reached [] (s.logOf i), ∀ schemaId : Uuid,
    pair.1 = schemaId.toText → InForce s.world.history schemaId pair.2

variable {s s' : RoutingState lru}

/-- A step in which no task gets an answer. -/
theorem Remembered.quiet (h : Remembered s) (hlog : s'.log = s.log)
    (hsteps : ReflTransGen Changes s.world.history s'.world.history)
    (hcache : s'.world.cache = s.world.cache) : Remembered s' := by
  have hlogs (i : ℕ) : s'.logOf i = s.logOf i := by rw [Pool.logOf, hlog, ← Pool.logOf]
  refine ⟨fun schemaId topic hheld => ?_, fun i pair hpair schemaId hid => ?_⟩
  · rw [hcache] at hheld
    exact (h.cached schemaId topic hheld).later hsteps
  · rw [hlogs] at hpair
    exact (h.found i pair hpair schemaId hid).later hsteps

/-- A task gets an answer: what it is given for a schema has to be right, and what is cached after it. -/
theorem Remembered.answered (h : Remembered s) {i : ℕ} {q : Call} {a : Answer q}
    (hlog : s'.log = s.log ++ [(i, ⟨q, a⟩)])
    (hsteps : ReflTransGen Changes s.world.history s'.world.history)
    (hcached : ∀ schemaId topic, lru.Holds s'.world.cache schemaId topic →
      lru.Holds s.world.cache schemaId topic ∨ InForce s'.world.history schemaId topic)
    (hfound : ∀ found, ∀ pair ∈ topicsProtocol.after found q a, pair ∈ found ∨
      ∀ schemaId : Uuid, pair.1 = schemaId.toText → InForce s'.world.history schemaId pair.2) :
    Remembered s' := by
  refine ⟨fun schemaId topic hheld => ?_, fun j pair hpair schemaId hid => ?_⟩
  · rcases hcached schemaId topic hheld with hheld | hnow
    · exact (h.cached schemaId topic hheld).later hsteps
    · exact hnow
  · have hlogs : s'.logOf j = s.logOf j ++ if i = j then [⟨q, a⟩] else [] := by
      rw [Pool.logOf, hlog]
      exact Consumer.logOf_append s i j ⟨q, a⟩ s.tasks s.world
    rw [hlogs, Protocol.reached, List.foldl_append] at hpair
    by_cases hij : i = j
    · rw [if_pos hij] at hpair
      rcases hfound _ pair hpair with hbefore | hnow
      · exact (h.found j pair hbefore schemaId hid).later hsteps
      · exact hnow schemaId hid
    · rw [if_neg hij] at hpair
      exact (h.found j pair hpair schemaId hid).later hsteps

/-- A task gets an answer that leaves the cache as it is. -/
theorem Remembered.given (h : Remembered s) {i : ℕ} {q : Call} {a : Answer q}
    (hlog : s'.log = s.log ++ [(i, ⟨q, a⟩)])
    (hsteps : ReflTransGen Changes s.world.history s'.world.history)
    (hcache : s'.world.cache = s.world.cache)
    (hfound : ∀ found, ∀ pair ∈ topicsProtocol.after found q a, pair ∈ found ∨
      ∀ schemaId : Uuid, pair.1 = schemaId.toText → InForce s'.world.history schemaId pair.2) :
    Remembered s' := by
  refine h.answered hlog hsteps (fun schemaId topic hheld => .inl ?_) hfound
  rw [hcache] at hheld
  exact hheld

variable (hids : ∀ id : Uuid, crates.parseUuid id.toText = .ok id)
include hids

/-- A topic that a task puts into the cache is one that it was given. -/
theorem Remembered.step (h : Remembered s)
    (hs : (registryRouter lru crates broker json config taskLimit).Sound messages s)
    (hstep : (registryRouter lru crates broker json config taskLimit).Step s s') : Remembered s' := by
  obtain ⟨m, -, -, hlog, htake⟩ | ⟨i, m, q, next, a, hpending, -, hlog, hanswer⟩ |
    ⟨m, q, -, hlog, hpanics⟩ | ⟨-, hlog, hworld⟩ := hstep.effect
  · exact h.quiet hlog htake.1 htake.2
  · have hallows := hs.allows follows_spawnedTask hpending
    cases q with
    | cacheGetMut schemaId =>
      obtain ⟨hsteps, ha, hcache⟩ := hanswer
      refine h.answered hlog hsteps (fun id topic hheld => .inl ?_) fun found pair hpair => ?_
      · rw [LruCache.Holds, hcache] at hheld
        exact lru.getMut_getMut _ _ _ _ hheld
      · cases a with
        | none => exact .inl hpair
        | some topic =>
          refine (List.mem_cons.mp hpair).symm.imp id fun heq id' hid => ?_
          subst heq
          obtain rfl := Uuid.toText_injective hid
          exact (h.cached _ _ ha.symm).later hsteps
    | cacheInsert schemaId topic =>
      obtain ⟨hsteps, hcache⟩ := hanswer
      refine h.answered hlog hsteps (fun id topic' hheld => ?_) fun found pair hpair => .inl hpair
      rw [LruCache.Holds, hcache] at hheld
      rcases lru.getMut_insert _ _ _ _ _ hheld with ⟨rfl, rfl⟩ | hheld
      · exact .inr ((h.found i _ hallows _ rfl).later hsteps)
      · exact .inl hheld
    | getSchemaTopic id =>
      cases a with
      | error e =>
        exact h.given hlog hanswer.1 hanswer.2 fun found pair hpair => .inl hpair
      | ok topic =>
        obtain ⟨hrequest, hcache⟩ := hanswer
        refine h.given hlog (hrequest.reaches changes_of_serves) hcache fun found pair hpair => ?_
        refine (List.mem_cons.mp hpair).symm.imp (fun hmem => hmem) fun heq schemaId hid => ?_
        subst heq
        obtain rfl : id = schemaId.toText := hid
        exact inForce_of_getSchemaTopic (hids schemaId) hrequest
    | lock | currentTimestamp | connect | publishMessage | ack | abort =>
      exact h.given hlog hanswer.1 hanswer.2 fun found pair hpair => .inl hpair
  · exact h.quiet hlog hpanics.1 hpanics.2
  · exact h.quiet hlog (by rw [hworld]) (by rw [hworld])

/-- **Every message goes to a topic that its schema has had since the process has started.** -/
theorem published_inForce {capacity : ℕ} {g : Graph} (hreach : (registryRouter lru crates broker json config
      taskLimit).Reachable messages ⟨[g], lru.new capacity⟩ s)
    {i : ℕ} {topic key : String} {message : BorrowedInsertMessage} {sent : Except Error Unit}
    (hsent : (i, (⟨.publishMessage topic key (.insert message), sent⟩ : Event Answer)) ∈ s.log) :
    InForce s.world.history message.schemaId topic := by
  have hs := Consumer.sound hreach
  have hremembered : Remembered s := by
    refine Consumer.invariant ⟨fun schemaId topic hheld => ?_, fun i pair hpair => ?_⟩
      (fun _ _ hbefore hinv hstep => hinv.step hids (Consumer.sound hbefore) hstep) hreach
    · rw [LruCache.Holds] at hheld
      exact absurd ((lru.getMut_new capacity schemaId).symm.trans hheld) nofun
    · cases hpair
  obtain ⟨t₁, t₂, hlog, hallowed⟩ := hs.allowed follows_spawnedTask hsent
  refine hremembered.found i (message.schemaId.toText, topic) ?_ message.schemaId rfl
  have hlog : s.logOf i = _ := hlog
  rw [hlog, Protocol.reached, List.foldl_append]
  exact mem_reached hallowed _

end Pool

/-! ### A topic that is no longer in force

The schema 0 is removed when a task has its topic and is about to publish an object of it. -/

open SchemaRegistry (sampleBroker sampleCrates sampleNewSchema sampleWorld withSchema)

def orders : Graph :=
  withSchema sampleCrates .empty 0 2 sampleNewSchema.split.1 ⟨sampleNewSchema.definition⟩

def sampleRpcCrates : RpcCrates :=
  { sampleCrates with
    parseUuid := Uuid.parse
    parseVersionReq := fun _ => .error "unexpected end of input"
    serializeJson := fun _ => .error "key must be a string"
    validate := fun _ _ => [] }

theorem interleaved_orders : Interleaved Changes (Serves sampleBroker)
    (SchemaRegistryImpl.getSchemaTopic sampleRpcCrates (Uuid.toText 0)).run [orders] (.ok "topic")
    [orders, orders, orders] := by
  have hparse : sampleRpcCrates.parseUuid (Uuid.toText 0) = .ok 0 := Uuid.parse_toText 0
  have hconnected : Serves sampleBroker .transaction [orders] (.ok ()) [orders, orders] :=
    ⟨sampleWorld orders 5 6, rfl, rfl, rfl⟩
  have hread : Serves sampleBroker (.getVertexProperties 0 .schemaTopicName) [orders, orders]
      (.ok (some (.string "topic"))) [orders, orders, orders] := ⟨sampleWorld orders 5 6, rfl, rfl, rfl⟩
  rw [SchemaRegistryImpl.getSchemaTopic, parseUuid_eq_ok hparse]
  exact .call hconnected (.call hread .ret)

/-- The task of the only message gets an answer. -/
theorem answered_alone {C : Consumer CommunicationMessage Answer} {m : CommunicationMessage}
    {rest : Task Unit} {q : Call} {next : Answer q → Task Unit} {a : Answer q}
    {log : List (ℕ × Event Answer)} {w w' : C.World} (hrest : rest = .call q next)
    (hanswer : C.answer m q w a w') : C.Step ⟨[], none, [(m, some rest)], log, w, false⟩
      ⟨[], none, [(m, some (next a))], log ++ [(0, ⟨q, a⟩)], w', false⟩ :=
  .answer (i := 0) rfl (congrArg (fun p => some (m, some p)) hrest) hanswer

abbrev ordersRouter : Consumer CommunicationMessage Answer :=
  registryRouter (QueryRouter.recentlyUsed Uuid String) sampleRpcCrates sampleBroker sampleJson
    ⟨"cdl.error", "http://localhost:50101"⟩ 1

def ordersMessage : CommunicationMessage := ⟨.ok "", .ok sampleText⟩

def ordersMemory (history : History) (topics : List (Uuid × String)) : ordersRouter.World :=
  ⟨history, ⟨1, topics⟩⟩

theorem reachable_orders : ∃ s, ordersRouter.Reachable [ordersMessage] (ordersMemory [orders] []) s ∧
    (0, (⟨.publishMessage "topic" "" (.insert sampleInsert), .ok ()⟩ : Event Answer)) ∈ s.log ∧
    s.world.history = [.empty, orders, orders, orders] := by
  let start := ordersMemory [orders] []
  let asked := ordersMemory [orders, orders, orders] []
  let cached := ordersMemory [orders, orders, orders] [(0, "topic")]
  let removed := ordersMemory [.empty, orders, orders, orders] [(0, "topic")]
  have hclock : ordersRouter.answer ordersMessage .currentTimestamp start (0 : ℤ) start := ⟨.refl, rfl⟩
  have hmissed : ordersRouter.answer ordersMessage (.cacheGetMut 0) start none start := ⟨.refl, rfl, rfl⟩
  have hconnected : ordersRouter.answer ordersMessage (.connect "http://localhost:50101") start (.ok ())
      start := ⟨.refl, rfl⟩
  have hasked : ordersRouter.answer ordersMessage (.getSchemaTopic (Uuid.toText 0)) start (.ok "topic")
      asked := ⟨interleaved_orders, rfl⟩
  have hcached : ordersRouter.answer ordersMessage (.cacheInsert 0 "topic") asked () cached :=
    ⟨.refl, rfl⟩
  have hpublished : ordersRouter.answer ordersMessage (.publishMessage "topic" "" (.insert sampleInsert))
      cached (.ok ()) removed := ⟨.single ⟨.empty, rfl⟩, rfl⟩
  have hspawned : ordersRouter.Reachable [ordersMessage] start
      ⟨[], none, [(ordersMessage, some (ordersRouter.body ordersMessage))], [], start, false⟩ :=
    .tail (.single (.take rfl rfl rfl ⟨.refl, rfl⟩)) (.spawn rfl rfl (by decide))
  have hlooked := (hspawned.tail (answered_alone rfl hclock)).tail (answered_alone rfl hmissed)
  have hknown := (hlooked.tail (answered_alone rfl hconnected)).tail (answered_alone rfl hasked)
  exact ⟨_, (hknown.tail (answered_alone rfl hcached)).tail (answered_alone rfl hpublished),
    List.mem_append_right _ List.mem_cons_self, rfl⟩

theorem parseUuid_sample (id : Uuid) : sampleRpcCrates.parseUuid id.toText = .ok id := by
  dsimp only [sampleRpcCrates]
  exact Uuid.parse_toText id

/-- The message goes to the topic all the same. -/
theorem published_inForce_removed : ∃ s,
    ordersRouter.Reachable [ordersMessage] (ordersMemory [orders] []) s ∧
    s.world.history.head? = some .empty ∧ InForce s.world.history 0 "topic" := by
  obtain ⟨s, hreach, hsent, hhistory⟩ := reachable_orders
  have hreach' : ordersRouter.Reachable [ordersMessage]
      ⟨[orders], (QueryRouter.recentlyUsed Uuid String).new 1⟩ s := hreach
  have hforce : InForce s.world.history sampleInsert.schemaId "topic" :=
    published_inForce parseUuid_sample hreach' hsent
  exact ⟨s, hreach, congrArg List.head? hhistory, hforce⟩

end CommonDataLayer.DataRouter
