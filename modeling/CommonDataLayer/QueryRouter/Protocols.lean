import CommonDataLayer.QueryRouter.Cache
import CommonDataLayer.SchemaRegistry.Encoding
import CommonDataLayer.SchemaRegistry.UploadProtocol

/-! # An update and a lookup of a schema's info, call by call

* `updateProtocol`: `update_schema_metadata` sets the address and then the type of its schema.
* `lookupProtocol`: `get_schema_info` reads the address and then the type, and caches the pair and
  returns it.
-/
namespace CommonDataLayer.QueryRouter
open Interaction
open SchemaRegistry (Crates PropName SchemaType Status mapError_eq_ok followsOk_onError
  stays_connect)
set_option autoImplicit false

/-! ## Updates -/

/-- A request of `update_schema_metadata` that changes the address and the type. -/
structure UpdateRequest where
  id : String
  name : Option String
  topic : Option String
  address : String
  schemaType : ℤ

namespace UpdateRequest
variable (request : UpdateRequest)

def handle (crates : Crates) : SchemaRegistry.Rpc SchemaRegistry.Response :=
  SchemaRegistry.SchemaRegistryImpl.updateSchemaMetadata crates request.id request.name request.topic
    (some request.address) (some request.schemaType)

def schemaId (crates : Crates) : Option Uuid := (crates.parseUuid request.id).toOption

/-- The pair that the request sets, unless its type is unknown. -/
def info : Option SchemaInfo :=
  (SchemaType.ofI32 request.schemaType).map fun schemaType => (request.address, schemaType)

end UpdateRequest

inductive UpdateProgress where
  | pending
  /-- There is a vertex with the identifier of the schema. -/
  | found
  | addressSet
  | finished
  deriving DecidableEq, Repr

namespace UpdateProgress

def seeVertex : UpdateProgress → UpdateProgress
  | pending => found
  | progress => progress

def after : UpdateProgress → (q : SchemaRegistry.Call) → SchemaRegistry.Answer q → UpdateProgress
  | progress, .getVertices _, .ok (some _) => progress.seeVertex
  | found, .setVertexProperties _ .schemaQueryAddress _, _ => addressSet
  | addressSet, .setVertexProperties _ .schemaType _, _ => finished
  | progress, _, _ => progress

end UpdateProgress

def updateProtocol (crates : Crates) (request : UpdateRequest) :
    Protocol SchemaRegistry.Answer UpdateProgress where
  Allows
    | _, .transaction => True
    | _, .topicOrExchangeExists _ => True
    | _, .replicateMessage _ => True
    | _, .getVertices id => request.schemaId crates = some id
    | progress, .setVertexProperties id name value => request.schemaId crates = some id ∧
      (name = .schemaName ∨ name = .schemaTopicName ∨
        (progress = .found ∧ name = .schemaQueryAddress ∧ value = .string request.address) ∨
        (progress = .addressSet ∧ name = .schemaType ∧
          ∃ t, SchemaType.ofI32 request.schemaType = some t ∧ value = .string t.text))
    | _, _ => False
  after := UpdateProgress.after

section Updates
open SchemaRegistry SchemaRegistryImpl
variable {crates : Crates} {request : UpdateRequest} {progress : UpdateProgress} {id : Uuid}

theorem followsOk_ifSome {α : Type} {post : Unit → UpdateProgress → Prop} {value : Option α}
    {f : α → Fallible Status Unit} (hnone : value = none → post () progress)
    (hsome : ∀ a, value = some a → Program.FollowsOk (updateProtocol crates request) post (f a) progress) :
    Program.FollowsOk (updateProtocol crates request) post (ifSome value f) progress := by
  cases value with
  | none => exact Program.followsOk_pure (hnone rfl)
  | some a => exact hsome a rfl

theorem stays_ensureTopic (topic : String) :
    Program.Stays (updateProtocol crates request) (ensureTopic crates topic) progress := by
  have hexists : Program.Stays (updateProtocol crates request) (topicOrExchangeExists crates topic)
      progress := followsOk_onError <| Program.followsOk_call trivial fun _ _ _ => rfl
  refine hexists.bind fun found => ?_
  cases found with
  | true => exact Program.stays_mk_ret _
  | false => exact Program.stays_mk_ret _

theorem followsOk_ensured_update (hid : request.schemaId crates = some id) :
    Program.FollowsOk (updateProtocol crates request) (fun _ reached => reached = progress.seeVertex)
      (ensureSchemaExists id) progress := by
  refine followsOk_ensureSchemaExists ⟨trivial, fun _ => ?_⟩ hid fun _ => ?_
  · cases progress <;> rfl
  · cases progress <;> rfl

/-- The shape of the four `update_schema_*` operations. -/
theorem followsOk_updateSchemaProperty {name : PropName} {value : String} {reached : UpdateProgress}
    (hset : (updateProtocol crates request).Allows progress.seeVertex
      (.setVertexProperties id name (.string value)))
    (hreached : ∀ a, progress.seeVertex.after (.setVertexProperties id name (.string value)) a =
      reached) :
    Program.FollowsOk (updateProtocol crates request) (fun _ p => p = reached)
      (db crates (updateSchemaProperty name id value)) progress := by
  refine followsOk_onError <| (followsOk_ensured_update hset.1).bind fun _ p hp => ?_
  subst hp
  refine (stays_connect ⟨trivial, fun _ => by cases progress <;> rfl⟩).followsOk_bind fun _ => ?_
  have hwrite : Program.FollowsOk (updateProtocol crates request) (fun _ p => p = reached)
      (setVertexProperty id name (.string value)) progress.seeVertex :=
    Program.followsOk_call hset fun a _ _ => hreached a
  exact hwrite.bind fun _ p hp => Program.followsOk_pure hp

theorem followsOk_handle : Program.FollowsOk (updateProtocol crates request) (fun _ _ => True)
    (request.handle crates) .pending := by
  have hparse : Program.FollowsOk (updateProtocol crates request)
      (fun id p => request.schemaId crates = some id ∧ p = .pending)
      (parsed (parseUuid crates request.id)) .pending := fun id hid =>
    ⟨by rw [UpdateRequest.schemaId, mapError_eq_ok.mp hid]; rfl, rfl⟩
  refine hparse.bind fun id p ⟨hid, hp⟩ => ?_
  subst hp
  have htopic : Program.Stays (updateProtocol crates request)
      (ifSome request.topic (ensureTopic crates)) .pending :=
    followsOk_ifSome (fun _ => rfl) fun topic _ => stays_ensureTopic topic
  -- the name and the topic
  have hearly {p : UpdateProgress} (hp : p.seeVertex = .found) {name : PropName}
      (hname : name = .schemaName ∨ name = .schemaTopicName) (value : Option String) :
      Program.FollowsOk (updateProtocol crates request) (fun _ p => p.seeVertex = .found)
        (ifSome value fun value => db crates (updateSchemaProperty name id value)) p := by
    refine followsOk_ifSome (fun _ => hp) fun value _ => ?_
    have hallows : (updateProtocol crates request).Allows p.seeVertex
        (.setVertexProperties id name (.string value)) := ⟨hid, hname.imp_right Or.inl⟩
    have hfound (a : SchemaRegistry.Answer (.setVertexProperties id name (.string value))) :
        p.seeVertex.after (.setVertexProperties id name (.string value)) a = .found := by
      rw [hp]
      rcases hname with rfl | rfl <;> rfl
    exact (followsOk_updateSchemaProperty hallows hfound).imp fun r p hr a ha => by rw [hr a ha]; rfl
  refine htopic.followsOk_bind fun _ => (hearly rfl (.inl rfl) request.name).bind fun _ p hp =>
    (hearly hp (.inr rfl) request.topic).bind fun _ p hp => ?_
  have haddress : Program.FollowsOk (updateProtocol crates request) (fun _ p => p = .addressSet)
      (db crates (updateSchemaProperty .schemaQueryAddress id request.address)) p := by
    refine followsOk_updateSchemaProperty ?_ fun a => by rw [hp]; rfl
    exact ⟨hid, .inr (.inr (.inl ⟨hp, rfl, rfl⟩))⟩
  refine haddress.bind fun _ p hp => ?_
  subst hp
  refine Program.FollowsOk.bind ?_ fun _ p (_ : p = .finished) => ⟨trivial, fun _ _ _ => trivial⟩
  refine followsOk_ifSome nofun fun schemaType hsome => ?_
  obtain rfl : request.schemaType = schemaType := Option.some.inj hsome
  cases htype : SchemaType.ofI32 request.schemaType with
  | none => exact Program.followsOk_throw _
  | some t =>
    refine followsOk_updateSchemaProperty ?_ fun a => rfl
    exact ⟨hid, .inr (.inr (.inr ⟨rfl, rfl, t, htype, rfl⟩))⟩

end Updates

/-! ## Lookups -/

/-- What a lookup has found out. -/
inductive Seen where
  | nothing
  | address (address : String)
  | info (info : SchemaInfo)

def Seen.after : Seen → (q : Call) → Answer q → Seen
  | nothing, .cacheGetMut _, some found => info found
  | nothing, .registry (.getVertexProperties _ _), .ok (some value) =>
    (value.asStr.map address).getD nothing
  | address found, .registry (.getVertexProperties _ _), .ok (some value) =>
    ((SchemaType.ofValue value).map fun t => info (found, t)).getD (address found)
  | seen, _, _ => seen

def lookupProtocol (schemaId : Uuid) : Protocol Answer Seen where
  Allows
    | .nothing, .cacheGetMut id => id = schemaId
    | .nothing, .connect _ => True
    | _, .deliver => True
    | _, .registry .transaction => True
    | .nothing, .registry (.getVertexProperties id name) => id = schemaId ∧ name = .schemaQueryAddress
    | .address _, .registry (.getVertexProperties id name) => id = schemaId ∧ name = .schemaType
    | .info held, .cacheInsert id info => id = schemaId ∧ info = held
    | _, _ => False
  after := Seen.after

section Lookups
open SchemaRegistry (getSchemaProperty Registry)
variable {crates : Crates} {schemaId : Uuid} {seen : Seen} {α : Type} {post : α → Seen → Prop}

@[simp] theorem Seen.after_deliver (a : Answer .deliver) : seen.after .deliver a = seen := by
  cases seen <;> rfl

@[simp] theorem Seen.after_transaction (a : Answer (.registry .transaction)) :
    seen.after (.registry .transaction) a = seen := by
  cases seen <;> rfl

/-- A request is its handler, unless a message is lost. -/
theorem followsOk_request {handler : SchemaRegistry.Rpc α}
    (h : Program.FollowsOk ((lookupProtocol schemaId).comap Call.registry) post handler seen) :
    Program.FollowsOk (lookupProtocol schemaId) post (request handler) seen := by
  have hdeliver (seen : Seen) : (lookupProtocol schemaId).Allows seen .deliver := by
    cases seen <;> trivial
  refine ⟨hdeliver seen, fun sent => ?_⟩
  rw [show (lookupProtocol schemaId).after seen .deliver sent = seen from Seen.after_deliver sent]
  cases sent with
  | error err => exact fun _ ha => nomatch ha
  | ok _ =>
    dsimp only [Program.ret_bind]
    refine Program.Follows.bind (Program.follows_embed.mpr h) fun response reached hresponse => ?_
    refine ⟨hdeliver reached, fun received a ha => ?_⟩
    rw [show (lookupProtocol schemaId).after reached .deliver received = reached from
      Seen.after_deliver received]
    cases received with
    | error err => cases ha
    | ok _ => exact hresponse a (mapError_eq_ok.mp ha)

theorem followsOk_getSchemaProperty {name : PropName} {ofValue : Value → Option α}
    (hget : (lookupProtocol schemaId).Allows seen (.registry (.getVertexProperties schemaId name)))
    (hpost : ∀ value a, ofValue value = some a →
      post a (seen.after (.registry (.getVertexProperties schemaId name)) (.ok (some value)))) :
    Program.FollowsOk ((lookupProtocol schemaId).comap Call.registry) post
      (getSchemaProperty name ofValue schemaId) seen := by
  have hconnect : Program.Stays ((lookupProtocol schemaId).comap Call.registry)
      SchemaRegistry.connect seen :=
    stays_connect ⟨by cases seen <;> trivial, Seen.after_transaction⟩
  have hvalue : Program.FollowsOk ((lookupProtocol schemaId).comap Call.registry)
      (fun value reached => reached =
        seen.after (.registry (.getVertexProperties schemaId name)) (.ok value))
      (SchemaRegistry.getVertexProperties schemaId name) seen :=
    Program.followsOk_call hget fun a value ha => by rw [mapError_eq_ok.mp ha]; rfl
  refine hconnect.followsOk_bind fun _ => hvalue.bind fun value reached hreached => ?_
  subst hreached
  cases value with
  | none => exact Program.followsOk_throw _
  | some value =>
    dsimp only
    cases ha : ofValue value with
    | none => exact Program.followsOk_throw _
    | some a => exact Program.followsOk_pure (hpost value a ha)

/-- A handler that reads one property of a schema. -/
theorem followsOk_parseUuid {handler : Uuid → SchemaRegistry.Rpc α} {id : String}
    (hparse : crates.parseUuid id = .ok schemaId)
    (h : Program.FollowsOk ((lookupProtocol schemaId).comap Call.registry) post (handler schemaId)
      seen) :
    Program.FollowsOk ((lookupProtocol schemaId).comap Call.registry) post
      (SchemaRegistry.SchemaRegistryImpl.parsed (SchemaRegistry.parseUuid crates id) >>= handler)
      seen := by
  rw [SchemaRegistry.parseUuid, hparse]
  exact h

theorem followsOk_getSchemaInfo (addr : String)
    (hparse : crates.parseUuid schemaId.toText = .ok schemaId) :
    Program.FollowsOk (lookupProtocol schemaId) (fun info reached => reached = .info info)
      (SchemaRegistryCache.getSchemaInfo crates addr schemaId) .nothing := by
  have hcached : Program.FollowsOk (lookupProtocol schemaId)
      (fun cached reached => reached = (cached.map Seen.info).getD .nothing)
      (SchemaRegistryCache.getMut schemaId) .nothing := by
    refine ⟨rfl, fun cached found hfound => ?_⟩
    cases hfound
    cases cached <;> rfl
  refine hcached.bind fun cached reached hreached => ?_
  subst hreached
  cases cached with
  | some info => exact Program.followsOk_pure rfl
  | none =>
    have hconnect : Program.Stays (lookupProtocol schemaId) (connect addr) .nothing :=
      ⟨trivial, fun _ _ _ => rfl⟩
    refine hconnect.followsOk_bind fun _ => ?_
    have haddress : Program.FollowsOk (lookupProtocol schemaId)
        (fun address reached => reached = .address address)
        (request (SchemaRegistry.SchemaRegistryImpl.getSchemaQueryAddress crates schemaId.toText))
        .nothing := by
      refine followsOk_request <| followsOk_parseUuid hparse <| followsOk_onError <|
        followsOk_getSchemaProperty ⟨rfl, rfl⟩ fun value address haddress => ?_
      show (value.asStr.map Seen.address).getD .nothing = _
      rw [haddress]
      rfl
    refine haddress.bind fun address reached hreached => ?_
    subst hreached
    have htype : Program.FollowsOk (lookupProtocol schemaId)
        (fun n reached => ∃ t, SchemaType.ofI32 n = some t ∧ reached = .info (address, t))
        (request (SchemaRegistry.SchemaRegistryImpl.getSchemaType crates schemaId.toText))
        (.address address) := by
      have hread : Program.FollowsOk ((lookupProtocol schemaId).comap Call.registry)
          (fun t reached => reached = .info (address, t)) (SchemaRegistry.getSchemaType schemaId)
          (.address address) := by
        refine followsOk_getSchemaProperty ⟨rfl, rfl⟩ fun value t ht => ?_
        show ((SchemaType.ofValue value).map fun t => Seen.info (address, t)).getD _ = _
        rw [ht]
        rfl
      refine followsOk_request <| followsOk_parseUuid hparse <| (followsOk_onError hread).bind ?_
      exact fun t reached hreached => Program.followsOk_pure ⟨t, SchemaType.ofI32_toI32 t, hreached⟩
    refine htype.bind fun n reached ⟨t, hn, hreached⟩ => ?_
    subst hreached
    rw [hn]
    exact ⟨⟨rfl, rfl⟩, fun _ info hinfo => by cases hinfo; rfl⟩

end Lookups
end CommonDataLayer.QueryRouter
