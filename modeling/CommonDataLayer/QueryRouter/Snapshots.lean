import CommonDataLayer.Foundations.Runs
import CommonDataLayer.Foundations.SplitRecord
import CommonDataLayer.QueryRouter.Protocols
import CommonDataLayer.SchemaRegistry.HalfCreated

/-! # Lookups of a schema's info among updates of it

Any number of `get_schema_info` calls of one query router, with the cache that they share, and of
`update_schema_metadata` requests that change the address and the type, whose steps are made in any
order among each other. A call that stops for good is one that is not taken up again.

* `State.record`: the address and the type of a schema, as a record whose parts are written and read
  one after the other.
* `Consistent`: every pair that was returned, or is cached, was in force after some number of updates.
* `InStep`: no update of a schema sets its address between the two writes of another one, and a lookup
  reads the type after as many updates as the address.
* `consistent_run`: as long as all steps are in step, all pairs are consistent.
-/
namespace CommonDataLayer.QueryRouter
open Interaction PropertyGraph TransitionSystem
open SchemaRegistry (Broker Crates Graph PropName SchemaType Status World)
set_option autoImplicit false

def addressAt (g : Graph) (id : Uuid) : Option String :=
  (g.propertyAt id .schemaQueryAddress).bind Value.asStr

def typeAt (g : Graph) (id : Uuid) : Option SchemaType :=
  (g.propertyAt id .schemaType).bind SchemaType.ofValue

/-! ## The system -/

structure Update where
  request : UpdateRequest
  program : SchemaRegistry.Task (Except Status SchemaRegistry.Response)
  progress : UpdateProgress

structure Lookup where
  schemaId : Uuid
  program : Program Answer (Except Error SchemaInfo)
  seen : Seen
  /-- How many updates had set the address of the schema when the lookup read it. -/
  begun : ℕ

/-- How a connection, or a message, fares. -/
structure Network where
  connect : Except String Unit
  deliver : Except Status Unit

structure State (lru : LruCache Uuid SchemaInfo) where
  initially : Graph
  world : World
  cache : lru.Contents
  updates : List Update
  /-- The requests that have set the type, in this order. -/
  finished : List UpdateRequest
  lookups : List Lookup

inductive Label where
  | updateSchemaMetadata (request : UpdateRequest)
  | getSchemaInfo (schemaId : Uuid)
  /-- The next step of an update, or of a lookup. -/
  | update (i : ℕ)
  | lookup (j : ℕ) (network : Network)

section System
variable {lru : LruCache Uuid SchemaInfo} (crates : Crates) (broker : Broker) (addr : String)

def answer (network : Network) : (q : Call) → World × lru.Contents → Answer q × World × lru.Contents
  | .cacheGetMut schemaId, (w, c) => ((lru.getMut schemaId c).1, w, (lru.getMut schemaId c).2)
  | .cacheInsert schemaId info, (w, c) => ((), w, lru.insert schemaId info c)
  | .connect _, (w, c) => (network.connect, w, c)
  | .deliver, (w, c) => (network.deliver, w, c)
  | .registry q, (w, c) =>
    ((SchemaRegistry.answer broker q w).1, (SchemaRegistry.answer broker q w).2, c)

/-- The update has set the address of the schema and not yet its type. -/
def Update.halfDone (id : Uuid) (u : Update) : Bool :=
  u.progress = .addressSet ∧ u.request.schemaId crates = some id

/-- The number of updates that a lookup remembers, the present one as long as it has read nothing. -/
def Seen.remember (present begun : ℕ) : Seen → ℕ
  | nothing => present
  | _ => begun

namespace State

def start (lru : LruCache Uuid SchemaInfo) (w : World) (capacity : ℕ) : State lru :=
  { initially := w.graph, world := w, cache := lru.new capacity, updates := [], finished := [],
    lookups := [] }

variable (s : State lru)

/-- The pairs that updates have given to the schema. -/
def finishedOf (id : Uuid) : List SchemaInfo :=
  s.finished.filterMap fun request => if request.schemaId crates = some id then request.info else none

def record (id : Uuid) : SplitRecord String SchemaType where
  first := addressAt s.world.graph id
  second := typeAt s.world.graph id
  initial := (addressAt s.initially id).bind fun address =>
    (typeAt s.initially id).map fun schemaType => (address, schemaType)
  begun := (s.finishedOf crates id).length + s.updates.countP (Update.halfDone crates id)
  done := s.finishedOf crates id

/-- The step of an update that was in this progress. -/
def setUpdate (i : ℕ) (progress : UpdateProgress) (w : World) (u : Update) : State lru :=
  { s with
    world := w
    updates := s.updates.set i u
    finished := if progress = .addressSet ∧ u.progress = .finished then s.finished ++ [u.request]
      else s.finished }

def step (s : State lru) : Label → Option (State lru)
  | .updateSchemaMetadata request =>
    some { s with updates := s.updates ++ [⟨request, (request.handle crates).run, .pending⟩] }
  | .getSchemaInfo schemaId =>
    some { s with lookups := s.lookups ++
      [⟨schemaId, (SchemaRegistryCache.getSchemaInfo crates addr schemaId).run, .nothing, 0⟩] }
  | .update i => match s.updates[i]? with
    | some ⟨request, .call q next, progress⟩ =>
      some (s.setUpdate i progress (SchemaRegistry.answer broker q s.world).2
        ⟨request, next (SchemaRegistry.answer broker q s.world).1,
          progress.after q (SchemaRegistry.answer broker q s.world).1⟩)
    | _ => none
  | .lookup j network => match s.lookups[j]? with
    | some ⟨schemaId, .call q next, seen, begun⟩ =>
      some { s with
        world := (answer broker network q (s.world, s.cache)).2.1
        cache := (answer broker network q (s.world, s.cache)).2.2
        lookups := s.lookups.set j ⟨schemaId, next (answer broker network q (s.world, s.cache)).1,
          seen.after q (answer broker network q (s.world, s.cache)).1,
          seen.remember (s.record crates schemaId).begun begun⟩ }
    | _ => none

abbrev Step (s : State lru) (l : Label) (s' : State lru) : Prop :=
  s.step crates broker addr l = some s'

/-! ## What is required -/

/-- The pairs that lookups have returned, and those in the cache, were in force. -/
structure Consistent : Prop where
  returned : ∀ lookup ∈ s.lookups, ∀ info, lookup.program = .ret (.ok info) →
    (s.record crates lookup.schemaId).InForce info
  cached : ∀ schemaId info, lru.Holds s.cache schemaId info →
    (s.record crates schemaId).InForce info

def InStep (s : State lru) : Label → Prop
  | .update i => match s.updates[i]? with
    | some ⟨_, .call (.setVertexProperties id .schemaQueryAddress _) _, _⟩ =>
      (s.record crates id).begun = (s.record crates id).done.length
    | _ => True
  | .lookup j _ => match s.lookups[j]? with
    | some ⟨_, .call (.registry (.getVertexProperties id .schemaType)) _, _, begun⟩ =>
      begun = (s.record crates id).done.length
    | _ => True
  | _ => True

instance (s : State lru) : DecidablePred (s.InStep crates)
  | .updateSchemaMetadata _ => isTrue trivial
  | .getSchemaInfo _ => isTrue trivial
  | .update _ => by
    unfold InStep
    dsimp only
    split <;> infer_instance
  | .lookup _ _ => by
    unfold InStep
    dsimp only
    split <;> infer_instance

end State

/-- The identifier that is looked up is read back from its text. -/
def Label.ReadsBack : Label → Prop
  | getSchemaInfo schemaId => crates.parseUuid schemaId.toText = .ok schemaId
  | _ => True

end System

/-! ## The steps of an update -/

section Steps
variable {lru : LruCache Uuid SchemaInfo} {crates : Crates} {broker : Broker} {request : UpdateRequest}

/-- What a call of an update makes of the database and of the progress. -/
inductive UpdateStep (crates : Crates) (request : UpdateRequest) (g : Graph) :
    UpdateProgress → SchemaRegistry.Call → Graph → UpdateProgress → Prop where
  | quiet {g' : Graph} {progress : UpdateProgress} {q : SchemaRegistry.Call}
      (haddress : ∀ id, addressAt g' id = addressAt g id) (htype : ∀ id, typeAt g' id = typeAt g id) :
      UpdateStep crates request g progress q g' progress
  | found {id : Uuid} (hid : request.schemaId crates = some id) (hvertex : g.vertexAt id ≠ none) :
      UpdateStep crates request g .pending (.getVertices id) g .found
  | setAddress {id : Uuid} (hid : request.schemaId crates = some id) :
      UpdateStep crates request g .found
        (.setVertexProperties id .schemaQueryAddress (.string request.address))
        (g.setVertexProperty id .schemaQueryAddress (.string request.address)) .addressSet
  | setType {id : Uuid} {t : SchemaType} (hid : request.schemaId crates = some id)
      (ht : SchemaType.ofI32 request.schemaType = some t) :
      UpdateStep crates request g .addressSet (.setVertexProperties id .schemaType (.string t.text))
        (g.setVertexProperty id .schemaType (.string t.text)) .finished

theorem UpdateStep.refl {g : Graph} {progress : UpdateProgress} {q : SchemaRegistry.Call} :
    UpdateStep crates request g progress q g progress :=
  .quiet (fun _ => rfl) fun _ => rfl

theorem addressAt_setVertexProperty_ne {g : Graph} {id i : Uuid} {name : PropName}
    (h : id = i → name ≠ .schemaQueryAddress) (value : Value) :
    addressAt (g.setVertexProperty id name value) i = addressAt g i := by
  rw [addressAt, addressAt, Graph.propertyAt_setVertexProperty_ne g h]

theorem typeAt_setVertexProperty_ne {g : Graph} {id i : Uuid} {name : PropName}
    (h : id = i → name ≠ .schemaType) (value : Value) :
    typeAt (g.setVertexProperty id name value) i = typeAt g i := by
  rw [typeAt, typeAt, Graph.propertyAt_setVertexProperty_ne g h]

/-- What is so in the database when an update is in this progress. -/
structure UpdateProgress.Knows (crates : Crates) (request : UpdateRequest) (g : Graph)
    (progress : UpdateProgress) : Prop where
  vertex : progress ≠ .pending → ∀ id, request.schemaId crates = some id → g.vertexAt id ≠ none
  address : progress = .addressSet → ∀ id, request.schemaId crates = some id →
    addressAt g id = some request.address

theorem addressAt_setVertexProperty {g : Graph} {id : Uuid} (h : g.vertexAt id ≠ none)
    (address : String) :
    addressAt (g.setVertexProperty id .schemaQueryAddress (.string address)) id = some address := by
  rw [addressAt, Graph.propertyAt_setVertexProperty g h]
  rfl

theorem typeAt_setVertexProperty {g : Graph} {id : Uuid} (h : g.vertexAt id ≠ none) (t : SchemaType) :
    typeAt (g.setVertexProperty id .schemaType (.string t.text)) id = some t := by
  rw [typeAt, Graph.propertyAt_setVertexProperty g h]
  exact SchemaType.ofValue_text t

theorem UpdateStep.knows {g g' : Graph} {progress progress' : UpdateProgress}
    {q : SchemaRegistry.Call} (hstep : UpdateStep crates request g progress q g' progress')
    (hknows : progress.Knows crates request g) (hgrows : g.Grows g') :
    progress'.Knows crates request g' := by
  have hvertex (hpending : progress ≠ .pending) (id : Uuid)
      (hid : request.schemaId crates = some id) : g'.vertexAt id ≠ none :=
    hgrows.vertexAt (hknows.vertex hpending id hid)
  cases hstep with
  | quiet haddress htype =>
    exact ⟨hvertex, fun hset id hid => (haddress id).trans (hknows.address hset id hid)⟩
  | found hid hfound =>
    refine ⟨fun _ id hid' => ?_, nofun⟩
    obtain rfl := Option.some.inj (hid.symm.trans hid')
    exact hfound
  | setAddress hid =>
    refine ⟨fun _ => hvertex (by decide), fun _ id hid' => ?_⟩
    obtain rfl := Option.some.inj (hid.symm.trans hid')
    exact addressAt_setVertexProperty (hknows.vertex (by decide) _ hid) _
  | setType hid ht => exact ⟨fun _ => hvertex (by decide), nofun⟩

theorem after_setVertexProperties {progress : UpdateProgress} {id : Uuid} {name : PropName}
    (haddress : name ≠ .schemaQueryAddress) (htype : name ≠ .schemaType) (value : Value)
    (a : SchemaRegistry.Answer (.setVertexProperties id name value)) :
    progress.after (.setVertexProperties id name value) a = progress := by
  cases progress <;> cases name <;> first | rfl | exact absurd rfl haddress | exact absurd rfl htype

/-- The name or the topic is set. -/
theorem updateStep_setVertexProperties {g : Graph} {progress : UpdateProgress} {id : Uuid}
    {name : PropName} (haddress : name ≠ .schemaQueryAddress) (htype : name ≠ .schemaType)
    (value : Value) (a : SchemaRegistry.Answer (.setVertexProperties id name value)) :
    UpdateStep crates request g progress (.setVertexProperties id name value)
      (g.setVertexProperty id name value) (progress.after (.setVertexProperties id name value) a) := by
  rw [after_setVertexProperties haddress htype]
  exact .quiet (fun _ => addressAt_setVertexProperty_ne (fun _ => haddress) value)
    fun _ => typeAt_setVertexProperty_ne (fun _ => htype) value

theorem updateStep_of_allows {progress : UpdateProgress} {q : SchemaRegistry.Call} {w : World}
    (hallows : (updateProtocol crates request).Allows progress q) :
    UpdateStep crates request w.graph progress q (SchemaRegistry.answer broker q w).2.graph
      (progress.after q (SchemaRegistry.answer broker q w).1) := by
  cases q with
  | transaction => cases progress <;> exact .refl
  | topicOrExchangeExists topic => cases progress <;> exact .refl
  | replicateMessage event =>
    have hgraph : (SchemaRegistry.answer broker (.replicateMessage event) w).2.graph = w.graph := by
      rw [SchemaRegistry.answer]
      split <;> rfl
    rw [hgraph]
    cases progress <;> exact .refl
  | getVertices id =>
    have hanswer : SchemaRegistry.answer broker (.getVertices id) w =
      (.ok ((w.graph.vertexAt id).map (·.t)), w) := rfl
    rw [hanswer]
    cases hvertex : w.graph.vertexAt id with
    | none => cases progress <;> exact .refl
    | some vertex =>
      cases progress with
      | pending => exact .found hallows (by rw [hvertex]; exact Option.some_ne_none _)
      | _ => exact .refl
  | setVertexProperties id name value =>
    obtain ⟨hid, rfl | rfl | ⟨rfl, rfl, rfl⟩ | ⟨rfl, rfl, t, ht, rfl⟩⟩ := hallows
    · exact updateStep_setVertexProperties (by decide) (by decide) value _
    · exact updateStep_setVertexProperties (by decide) (by decide) value _
    · exact .setAddress hid
    · exact .setType hid ht
  | _ => exact hallows.elim

/-- An element of a list is replaced. -/
theorem countP_set_add {α : Type} {p : α → Bool} {l : List α} {i : ℕ} {a : α} (h : l[i]? = some a)
    (b : α) : (l.set i b).countP p + (if p a then 1 else 0) = l.countP p + if p b then 1 else 0 := by
  induction l generalizing i with
  | nil => cases h
  | cons x l ih =>
    cases i with
    | zero =>
      obtain rfl : x = a := Option.some.inj h
      simp only [List.set_cons_zero, List.countP_cons]
      omega
    | succ i =>
      have hrest := ih h
      simp only [List.set_cons_succ, List.countP_cons]
      omega

variable {s : State lru} {i : ℕ} {w : World} {u u' : Update} {q : SchemaRegistry.Call}

theorem finishedOf_setUpdate (hrequest : u'.request = u.request) (id : Uuid) :
    (s.setUpdate i u.progress w u').finishedOf crates id = s.finishedOf crates id ++
      if u.progress = .addressSet ∧ u'.progress = .finished ∧ u.request.schemaId crates = some id then
        u.request.info.toList else [] := by
  unfold State.finishedOf State.setUpdate
  by_cases hfinishes : u.progress = .addressSet ∧ u'.progress = .finished
  · rw [if_pos hfinishes, List.filterMap_append, hrequest]
    by_cases hid : u.request.schemaId crates = some id
    · rw [if_pos ⟨hfinishes.1, hfinishes.2, hid⟩]
      cases hinfo : u.request.info <;> simp [hid, hinfo]
    · rw [if_neg fun h => hid h.2.2]
      simp [hid]
  · rw [if_neg hfinishes, if_neg fun h => hfinishes ⟨h.1, h.2.1⟩, List.append_nil]

theorem halfDone_iff {id : Uuid} : u.halfDone crates id ↔
    u.progress = .addressSet ∧ u.request.schemaId crates = some id := by
  rw [Update.halfDone, decide_eq_true_iff]

section Records
variable (pending : s.updates[i]? = some u) (hrequest : u'.request = u.request) {id : Uuid}
include pending hrequest

theorem record_stay (hnot : u.request.schemaId crates = some id →
      ¬ (u.progress = .addressSet ∧ u'.progress = .finished))
    (hhalf : u'.halfDone crates id = u.halfDone crates id)
    (hfirst : addressAt w.graph id = addressAt s.world.graph id)
    (hsecond : typeAt w.graph id = typeAt s.world.graph id) :
    (s.setUpdate i u.progress w u').record crates id = s.record crates id := by
  have hdone : (s.setUpdate i u.progress w u').finishedOf crates id = s.finishedOf crates id := by
    rw [finishedOf_setUpdate hrequest, if_neg fun h => hnot h.2.2 ⟨h.1, h.2.1⟩, List.append_nil]
  have hcount : (s.updates.set i u').countP (Update.halfDone crates id) =
      s.updates.countP (Update.halfDone crates id) := by
    have hset := countP_set_add (p := Update.halfDone crates id) pending u'
    rw [hhalf] at hset
    exact Nat.add_right_cancel hset
  exact SplitRecord.ext hfirst hsecond rfl (congrArg₂ (· + ·) (congrArg List.length hdone) hcount) hdone

/-- An update of another schema. -/
theorem record_other {other : Uuid} (hid : u.request.schemaId crates = some other) (hne : other ≠ id)
    (hfirst : addressAt w.graph id = addressAt s.world.graph id)
    (hsecond : typeAt w.graph id = typeAt s.world.graph id) :
    (s.setUpdate i u.progress w u').record crates id = s.record crates id := by
  have hnot : u.request.schemaId crates ≠ some id := by simpa [hid] using hne
  refine record_stay pending hrequest (fun h => absurd h hnot) ?_ hfirst hsecond
  simp [Update.halfDone, hrequest, hnot]

theorem record_setFirst {address : String} (hid : u.request.schemaId crates = some id)
    (hbefore : u.progress ≠ .addressSet) (hafter : u'.progress = .addressSet)
    (hfirst : addressAt w.graph id = some address)
    (hsecond : typeAt w.graph id = typeAt s.world.graph id) :
    (s.setUpdate i u.progress w u').record crates id = (s.record crates id).setFirst address := by
  have hdone : (s.setUpdate i u.progress w u').finishedOf crates id = s.finishedOf crates id := by
    rw [finishedOf_setUpdate hrequest, if_neg fun h => hbefore h.1, List.append_nil]
  have hcount : (s.updates.set i u').countP (Update.halfDone crates id) =
      s.updates.countP (Update.halfDone crates id) + 1 := by
    have hset := countP_set_add (p := Update.halfDone crates id) pending u'
    rwa [if_neg fun h => hbefore (halfDone_iff.mp h).1,
      if_pos (halfDone_iff.mpr ⟨hafter, by rw [hrequest, hid]⟩)] at hset
  have hbegun : ((s.setUpdate i u.progress w u').finishedOf crates id).length +
      (s.updates.set i u').countP (Update.halfDone crates id) =
      (s.finishedOf crates id).length + s.updates.countP (Update.halfDone crates id) + 1 := by
    rw [hdone, hcount, Nat.add_assoc]
  exact SplitRecord.ext hfirst hsecond rfl hbegun hdone

theorem record_setSecond {address : String} {t : SchemaType}
    (hid : u.request.schemaId crates = some id) (hinfo : u.request.info = some (address, t))
    (hbefore : u.progress = .addressSet) (hafter : u'.progress = .finished)
    (hfirst : addressAt w.graph id = addressAt s.world.graph id)
    (hsecond : typeAt w.graph id = some t) :
    (s.setUpdate i u.progress w u').record crates id = (s.record crates id).setSecond address t := by
  have hdone : (s.setUpdate i u.progress w u').finishedOf crates id =
      s.finishedOf crates id ++ [(address, t)] := by
    rw [finishedOf_setUpdate hrequest, if_pos ⟨hbefore, hafter, hid⟩, hinfo]
    rfl
  have hcount : (s.updates.set i u').countP (Update.halfDone crates id) + 1 =
      s.updates.countP (Update.halfDone crates id) := by
    have hset := countP_set_add (p := Update.halfDone crates id) pending u'
    rwa [if_pos (halfDone_iff.mpr ⟨hbefore, hid⟩),
      if_neg fun h => absurd (hafter.symm.trans (halfDone_iff.mp h).1) (by decide)] at hset
  have hbegun : ((s.setUpdate i u.progress w u').finishedOf crates id).length +
      (s.updates.set i u').countP (Update.halfDone crates id) =
      (s.finishedOf crates id).length + s.updates.countP (Update.halfDone crates id) := by
    rw [hdone, List.length_append, List.length_singleton]
    omega
  exact SplitRecord.ext hfirst hsecond rfl hbegun hdone

/-- The call of an update is one write of the record of its schema, or none. -/
theorem record_setUpdate {g' : Graph} {progress progress' : UpdateProgress}
    (hstep : UpdateStep crates u.request s.world.graph progress q g' progress')
    (hbefore : u.progress = progress) (hafter : u'.progress = progress') (hgraph : w.graph = g')
    (hknows : u.progress.Knows crates u.request s.world.graph)
    (hclear : ∀ id value, q = .setVertexProperties id .schemaQueryAddress value →
      (s.record crates id).begun = (s.record crates id).done.length) (id : Uuid) :
    (s.record crates id).Step ((s.setUpdate i u.progress w u').record crates id) := by
  have hstay (h : (s.setUpdate i u.progress w u').record crates id = s.record crates id) :
      (s.record crates id).Step ((s.setUpdate i u.progress w u').record crates id) := h ▸ .stay
  cases hstep with
  | quiet hfirst hsecond =>
    refine hstay (record_stay pending hrequest (fun _ h => ?_) ?_ (hgraph ▸ hfirst id)
      (hgraph ▸ hsecond id))
    · exact absurd (h.1.symm.trans (hbefore.trans (hafter.symm.trans h.2))) (by decide)
    · rw [Update.halfDone, Update.halfDone, hbefore, hafter, hrequest]
  | found hid hvertex =>
    refine hstay (record_stay pending hrequest (fun _ h => ?_) ?_ (by rw [hgraph]) (by rw [hgraph]))
    · exact absurd (hbefore.symm.trans h.1) (by decide)
    · simp [Update.halfDone, hbefore, hafter]
  | @setAddress schemaId hid =>
    have hsecond : typeAt w.graph id = typeAt s.world.graph id := by
      rw [hgraph]
      exact typeAt_setVertexProperty_ne (fun _ => by decide) _
    by_cases hi : schemaId = id
    · subst hi
      have hfirst : addressAt w.graph schemaId = some u.request.address := by
        rw [hgraph, addressAt_setVertexProperty (hknows.vertex (by rw [hbefore]; decide) schemaId hid)]
      rw [record_setFirst pending hrequest hid (by rw [hbefore]; decide) hafter hfirst hsecond]
      exact .setFirst (hclear schemaId _ rfl) _
    · refine hstay (record_other pending hrequest hid hi ?_ hsecond)
      rw [hgraph, addressAt_setVertexProperty_ne fun h => absurd h hi]
  | @setType schemaId t hid ht =>
    have hfirst : addressAt w.graph id = addressAt s.world.graph id := by
      rw [hgraph]
      exact addressAt_setVertexProperty_ne (fun _ => by decide) _
    by_cases hi : schemaId = id
    · subst hi
      have hbegun := hknows.address hbefore schemaId hid
      have hsecond : typeAt w.graph schemaId = some t := by
        rw [hgraph, typeAt_setVertexProperty (hknows.vertex (by rw [hbefore]; decide) schemaId hid)]
      have hinfo : u.request.info = some (u.request.address, t) := by
        rw [UpdateRequest.info, ht]
        rfl
      rw [record_setSecond pending hrequest hid hinfo hbefore hafter hfirst hsecond]
      exact .setSecond hbegun t
    · refine hstay (record_other pending hrequest hid hi hfirst ?_)
      rw [hgraph, typeAt_setVertexProperty_ne fun h => absurd h hi]

end Records

/-! ## The invariant -/

/-- What a lookup has found out fits the record of the schema. -/
def Seen.Knows (r : SplitRecord String SchemaType) (n : ℕ) : Seen → Prop
  | .nothing => True
  | .address found => r.Seen found n
  | .info found => r.InForce found

structure Update.Keeps (crates : Crates) (g : Graph) (u : Update) : Prop where
  follows : u.program.Follows (updateProtocol crates u.request) (fun _ _ => True) u.progress
  knows : u.progress.Knows crates u.request g

structure Lookup.Keeps (crates : Crates) (s : State lru) (lookup : Lookup) : Prop where
  follows : lookup.program.Follows (lookupProtocol lookup.schemaId)
    (fun r reached => ∀ info, r = .ok info → reached = .info info) lookup.seen
  knows : lookup.seen.Knows (s.record crates lookup.schemaId) lookup.begun

structure Sound (crates : Crates) (s : State lru) : Prop where
  records : ∀ id, (s.record crates id).Sound
  updates : ∀ u ∈ s.updates, u.Keeps crates s.world.graph
  lookups : ∀ lookup ∈ s.lookups, lookup.Keeps crates s
  cached : ∀ id info, lru.Holds s.cache id info → (s.record crates id).InForce info

theorem Seen.Knows.step {seen : Seen} {r r' : SplitRecord String SchemaType} {n : ℕ}
    (h : seen.Knows r n) (hsound : r.Sound) (hstep : r.Step r') : seen.Knows r' n := by
  cases seen with
  | nothing => trivial
  | address address => exact SplitRecord.Seen.step h hsound hstep
  | info info => exact SplitRecord.InForce.step h hstep

/-- While an update is between its two writes, the address of its schema stays. -/
theorem begun_ne_of_halfDone {id : Uuid} (hmem : u ∈ s.updates) (hset : u.progress = .addressSet)
    (hid : u.request.schemaId crates = some id) :
    (s.record crates id).begun ≠ (s.record crates id).done.length := by
  have hpos : 0 < s.updates.countP (Update.halfDone crates id) :=
    List.countP_pos_iff.mpr ⟨u, hmem, halfDone_iff.mpr ⟨hset, hid⟩⟩
  show (s.finishedOf crates id).length + _ ≠ (s.finishedOf crates id).length
  omega

theorem Sound.setUpdate (h : Sound crates s) (pending : s.updates[i]? = some u)
    (hrequest : u'.request = u.request)
    (hfollows : u'.program.Follows (updateProtocol crates u'.request) (fun _ _ => True) u'.progress)
    (hstep : UpdateStep crates u.request s.world.graph u.progress q w.graph u'.progress)
    (hgrows : s.world.graph.Grows w.graph)
    (hclear : ∀ id value, q = .setVertexProperties id .schemaQueryAddress value →
      (s.record crates id).begun = (s.record crates id).done.length) :
    Sound crates (s.setUpdate i u.progress w u') := by
  have hknows := (h.updates u (List.mem_of_getElem? pending)).knows
  have hrecord := record_setUpdate pending hrequest hstep rfl rfl rfl hknows hclear
  refine ⟨fun id => (h.records id).step (hrecord id), fun other hother => ?_, fun lookup hlookup => ?_,
    fun id info hheld => (h.cached id info hheld).step (hrecord id)⟩
  · rcases List.mem_or_eq_of_mem_set hother with hother | rfl
    · obtain ⟨hfollows, hvertex, haddress⟩ := h.updates other hother
      refine ⟨hfollows, fun hpending id hid => hgrows.vertexAt (hvertex hpending id hid), ?_⟩
      intro hset id hid
      have hfirst := (hrecord id).first_eq (begun_ne_of_halfDone hother hset hid)
      exact hfirst.trans (haddress hset id hid)
    · exact ⟨hfollows, hrequest ▸ hstep.knows hknows hgrows⟩
  · obtain ⟨hfollows, hseen⟩ := h.lookups lookup hlookup
    exact ⟨hfollows, hseen.step (h.records _) (hrecord _)⟩

theorem Sound.updateSchemaMetadata (h : Sound crates s) (request : UpdateRequest) : Sound crates
    { s with updates := s.updates ++ [⟨request, (request.handle crates).run, .pending⟩] } := by
  have hrecord (id : Uuid) : State.record crates
      { s with updates := s.updates ++ [⟨request, (request.handle crates).run, .pending⟩] } id =
        s.record crates id := by
    refine SplitRecord.ext rfl rfl rfl (congrArg (_ + ·) ?_) rfl
    have hnot : UpdateProgress.pending ≠ .addressSet := by decide
    rw [List.countP_append, List.countP_singleton, if_neg fun h => hnot (halfDone_iff.mp h).1]
    rfl
  refine ⟨fun id => hrecord id ▸ h.records id, ?_, fun lookup hlookup => ?_, fun id info hheld => ?_⟩
  · refine List.forall_mem_append.mpr ⟨h.updates, List.forall_mem_singleton.mpr ⟨?_, nofun, nofun⟩⟩
    exact followsOk_handle.imp fun _ _ _ => trivial
  · obtain ⟨hfollows, hseen⟩ := h.lookups lookup hlookup
    exact ⟨hfollows, by rw [hrecord]; exact hseen⟩
  · rw [hrecord]
    exact h.cached id info hheld

theorem Sound.getSchemaInfo (h : Sound crates s) (addr : String) {schemaId : Uuid}
    (hparse : crates.parseUuid schemaId.toText = .ok schemaId) : Sound crates { s with lookups :=
      s.lookups ++ [⟨schemaId, (SchemaRegistryCache.getSchemaInfo crates addr schemaId).run, .nothing, 0⟩] } where
  records := h.records
  updates := h.updates
  lookups := List.forall_mem_append.mpr ⟨fun lookup hlookup => ⟨(h.lookups lookup hlookup).follows,
    (h.lookups lookup hlookup).knows⟩,
    List.forall_mem_singleton.mpr ⟨followsOk_getSchemaInfo addr hparse, trivial⟩⟩
  cached := h.cached

/-- The call of a lookup leaves the database as it is. -/
theorem answer_world {schemaId : Uuid} {seen : Seen} {q : Call} {network : Network} {c : lru.Contents}
    (hallows : (lookupProtocol schemaId).Allows seen q) (w : World) :
    (answer broker network q (w, c)).2.1 = w := by
  cases q with
  | registry q => cases seen <;> cases q <;> first | rfl | exact hallows.elim
  | _ => rfl

/-- What is cached after the call of a lookup was cached before, or is what the lookup has found. -/
theorem holds_answer {schemaId id : Uuid} {seen : Seen} {q : Call} {network : Network}
    {c : lru.Contents} {info : SchemaInfo} (hallows : (lookupProtocol schemaId).Allows seen q)
    (hheld : lru.Holds (answer broker network q (w, c)).2.2 id info) :
    lru.Holds c id info ∨ (id = schemaId ∧ seen = .info info) := by
  cases q with
  | cacheGetMut key => exact .inl (lru.getMut_getMut _ _ _ _ hheld)
  | cacheInsert key value =>
    cases seen with
    | info found =>
      obtain ⟨rfl, rfl⟩ := hallows
      rcases lru.getMut_insert _ _ _ _ _ hheld with ⟨rfl, rfl⟩ | hheld
      · exact .inr ⟨rfl, rfl⟩
      · exact .inl hheld
    | _ => exact hallows.elim
  | _ => exact .inl hheld

theorem after_getAddress {w : World} {c : lru.Contents} (network : Network) (id : Uuid) :
    Seen.after .nothing (.registry (.getVertexProperties id .schemaQueryAddress))
      (answer broker network (.registry (.getVertexProperties id .schemaQueryAddress)) (w, c)).1 =
        ((addressAt w.graph id).map Seen.address).getD .nothing := by
  show Seen.after .nothing (.registry (.getVertexProperties id .schemaQueryAddress))
    (.ok (w.graph.propertyAt id .schemaQueryAddress)) = _
  rw [addressAt]
  cases w.graph.propertyAt id .schemaQueryAddress <;> rfl

theorem after_getType {w : World} {c : lru.Contents} (network : Network) (id : Uuid)
    (address : String) :
    Seen.after (.address address) (.registry (.getVertexProperties id .schemaType))
      (answer broker network (.registry (.getVertexProperties id .schemaType)) (w, c)).1 =
        ((typeAt w.graph id).map fun t => Seen.info (address, t)).getD (.address address) := by
  show Seen.after (.address address) (.registry (.getVertexProperties id .schemaType))
    (.ok (w.graph.propertyAt id .schemaType)) = _
  rw [typeAt]
  cases w.graph.propertyAt id .schemaType <;> rfl

/-- What a lookup has found out after its call. -/
theorem Sound.knows_answer (h : Sound crates s) {schemaId : Uuid} {seen : Seen} {q : Call}
    {network : Network} {begun : ℕ} (hallows : (lookupProtocol schemaId).Allows seen q)
    (hknows : seen.Knows (s.record crates schemaId) begun)
    (hlevel : q = .registry (.getVertexProperties schemaId .schemaType) →
      begun = (s.record crates schemaId).done.length) :
    (seen.after q (answer broker network q (s.world, s.cache)).1).Knows (s.record crates schemaId)
      (seen.remember (s.record crates schemaId).begun begun) := by
  cases seen with
  | nothing =>
    cases q with
    | cacheGetMut id =>
      obtain rfl : id = schemaId := hallows
      show (Seen.after .nothing (.cacheGetMut id) (lru.getMut id s.cache).1).Knows _ _
      cases hheld : (lru.getMut id s.cache).1 with
      | none => trivial
      | some info => exact h.cached id info hheld
    | registry q =>
      cases q with
      | getVertexProperties id name =>
        obtain ⟨rfl, rfl⟩ := hallows
        rw [after_getAddress]
        cases hfirst : addressAt s.world.graph id with
        | none => trivial
        | some address => exact SplitRecord.seen_of_read (h.records id) hfirst
      | transaction => trivial
      | _ => exact hallows.elim
    | connect addr => trivial
    | deliver => trivial
    | cacheInsert id info => exact hallows.elim
  | address found =>
    cases q with
    | registry q =>
      cases q with
      | getVertexProperties id name =>
        obtain ⟨rfl, rfl⟩ := hallows
        rw [after_getType]
        cases hsecond : typeAt s.world.graph id with
        | none => exact hknows
        | some t => exact SplitRecord.Seen.inForce hknows (hlevel rfl) hsecond
      | transaction => exact hknows
      | _ => exact hallows.elim
    | deliver => exact hknows
    | _ => exact hallows.elim
  | info found =>
    cases q with
    | registry q => cases q <;> exact hknows
    | _ => exact hknows

theorem Sound.lookup (h : Sound crates s) {j : ℕ} {network : Network} {schemaId : Uuid} {q : Call}
    {next : Answer q → Program Answer (Except Error SchemaInfo)} {seen : Seen} {begun : ℕ}
    (pending : s.lookups[j]? = some ⟨schemaId, .call q next, seen, begun⟩)
    (hlevel : q = .registry (.getVertexProperties schemaId .schemaType) →
      begun = (s.record crates schemaId).done.length) : Sound crates
    { s with
      world := (answer broker network q (s.world, s.cache)).2.1
      cache := (answer broker network q (s.world, s.cache)).2.2
      lookups := s.lookups.set j ⟨schemaId, next (answer broker network q (s.world, s.cache)).1,
        seen.after q (answer broker network q (s.world, s.cache)).1,
        seen.remember (s.record crates schemaId).begun begun⟩ } := by
  obtain ⟨⟨hallows, hfollows⟩, hknows⟩ := h.lookups _ (List.mem_of_getElem? pending)
  rw [answer_world hallows s.world]
  refine ⟨h.records, h.updates, fun lookup hlookup => ?_, fun id info hheld => ?_⟩
  · rcases List.mem_or_eq_of_mem_set hlookup with hlookup | rfl
    · exact ⟨(h.lookups lookup hlookup).follows, (h.lookups lookup hlookup).knows⟩
    · exact ⟨hfollows _, h.knows_answer hallows hknows hlevel⟩
  · rcases holds_answer hallows hheld with hheld | ⟨rfl, rfl⟩
    · exact h.cached id info hheld
    · exact hknows

theorem Sound.step {addr : String} {s' : State lru} {l : Label} (h : Sound crates s)
    (hstep : State.Step crates broker addr s l s') (hparse : l.ReadsBack crates)
    (hok : s.InStep crates l) : Sound crates s' := by
  cases l with
  | updateSchemaMetadata request =>
    cases hstep
    exact h.updateSchemaMetadata request
  | getSchemaInfo schemaId =>
    cases hstep
    exact h.getSchemaInfo addr hparse
  | update i =>
    simp only [State.Step, State.step] at hstep
    split at hstep
    · rename_i request q next progress pending
      cases hstep
      obtain ⟨hallows, hfollows⟩ := (h.updates _ (List.mem_of_getElem? pending)).follows
      refine h.setUpdate pending rfl (hfollows _) (updateStep_of_allows hallows)
        (SchemaRegistry.grows_answer q s.world) ?_
      rintro id value rfl
      rw [State.InStep, pending] at hok
      exact hok
    · cases hstep
  | lookup j network =>
    simp only [State.Step, State.step] at hstep
    split at hstep
    · rename_i schemaId q next seen begun pending
      cases hstep
      refine h.lookup pending ?_
      rintro rfl
      rw [State.InStep, pending] at hok
      exact hok
    · cases hstep

/-! ## Runs -/

theorem Sound.consistent (h : Sound crates s) : s.Consistent crates where
  returned lookup hlookup info hreturned := by
    obtain ⟨hfollows, hknows⟩ := h.lookups lookup hlookup
    rw [hreturned] at hfollows
    rw [hfollows info rfl] at hknows
    exact hknows
  cached := h.cached

theorem sound_start (w : World) (capacity : ℕ) : Sound crates (.start lru w capacity) where
  records id := ⟨Nat.zero_le _, fun _ => rfl⟩
  updates := nofun
  lookups := nofun
  cached id info hheld := by
    have hnew : (lru.getMut id (lru.new capacity)).1 = none := lru.getMut_new capacity id
    rw [LruCache.Holds, State.start, hnew] at hheld
    cases hheld

theorem consistent_run {addr : String} {w : World} {capacity : ℕ}
    {ts : List (Transition (State lru) Label)} (hparse : ∀ t ∈ ts, t.label.ReadsBack crates)
    (hrun : Run (State.Step crates broker addr) (.start lru w capacity) ts s)
    (hok : ∀ t ∈ ts, t.before.InStep crates t.label) :
    ∀ s ∈ states (.start lru w capacity) ts, s.Consistent crates := by
  have hstart : Sound crates (.start lru w capacity) := sound_start w capacity
  have hsound : ∀ s ∈ states (.start lru w capacity) ts, Sound crates s := hrun.invariant_states hstart
    (fun s l s' h next (hok : l.ReadsBack crates ∧ s.InStep crates l) => h.step next hok.1 hok.2)
    fun t ht => ⟨hparse t ht, hok t ht⟩
  exact fun s hs => (hsound s hs).consistent

end Steps

/-! ## One update, and the lookups around it -/

section Samples
open SchemaRegistry (sampleBroker sampleCrates sampleGraph sampleWorld)

def Lookup.returned (lookup : Lookup) : Option SchemaInfo :=
  match lookup.program with
  | .ret (.ok info) => some info
  | _ => none

def sampleState : State (recentlyUsed Uuid SchemaInfo) :=
  .start (recentlyUsed Uuid SchemaInfo) (sampleWorld sampleGraph 5 6) 100

def sampleRequest : UpdateRequest :=
  { id := Uuid.toText 1, name := none, topic := none, address := "timeseries-address", schemaType := 1 }

def lookupLabel (j : ℕ) : Label := .lookup j { connect := .ok (), deliver := .ok () }

/-- The first lookup reads the address that an update has just set, and waits for the type. The second
one finds the pair in the cache. -/
def inStepLabels : List Label :=
  .updateSchemaMetadata sampleRequest :: List.replicate 4 (.update 0) ++
    .getSchemaInfo 1 :: List.replicate 5 (lookupLabel 0) ++ List.replicate 5 (.update 0) ++
    List.replicate 6 (lookupLabel 0) ++ [.getSchemaInfo 1, lookupLabel 1]

/-- An update sets the address and the type after the lookup has read the address. -/
def tornLabels : List Label :=
  .getSchemaInfo 1 :: List.replicate 5 (lookupLabel 0) ++
    .updateSchemaMetadata sampleRequest :: List.replicate 9 (.update 0) ++
    List.replicate 6 (lookupLabel 0)

abbrev SampleStep : State (recentlyUsed Uuid SchemaInfo) → Label →
    State (recentlyUsed Uuid SchemaInfo) → Prop :=
  State.Step sampleCrates sampleBroker "schema-registry"

theorem readsBack_labels {labels : List Label}
    (h : ∀ schemaId, .getSchemaInfo schemaId ∈ labels → schemaId = 1) :
    ∀ l ∈ labels, l.ReadsBack sampleCrates := by
  intro l hl
  cases l with
  | getSchemaInfo schemaId =>
    obtain rfl := h schemaId hl
    simp [Label.ReadsBack, sampleCrates]
  | _ => trivial

theorem consistent_run_inStep : ∃ ts s, Run SampleStep sampleState ts s ∧
    s.lookups.map Lookup.returned =
      [some ("timeseries-address", .timeseries), some ("timeseries-address", .timeseries)] ∧
    ∀ s ∈ states sampleState ts, s.Consistent sampleCrates := by
  have hreturned : (inStepLabels.foldlM (fun (s : State (recentlyUsed Uuid SchemaInfo)) l =>
      if s.InStep sampleCrates l then s.step sampleCrates sampleBroker "schema-registry" l else none)
      sampleState).map (fun s => s.lookups.map Lookup.returned) =
      some [some ("timeseries-address", .timeseries), some ("timeseries-address", .timeseries)] := by
    decide +kernel
  obtain ⟨s, hs, hreturned⟩ := Option.map_eq_some_iff.mp hreturned
  obtain ⟨ts, hrun, hlabels, hok⟩ := Run.of_steps_if hs
  have hparse : ∀ t ∈ ts, t.label.ReadsBack sampleCrates :=
    forall_label hlabels (readsBack_labels (by simp [inStepLabels, lookupLabel]))
  exact ⟨ts, s, hrun, hreturned, consistent_run hparse hrun hok⟩

theorem not_consistent_torn : ¬ ∀ (w : World) (capacity : ℕ)
    (ts : List (Transition (State (recentlyUsed Uuid SchemaInfo)) Label))
    (s : State (recentlyUsed Uuid SchemaInfo)), (∀ t ∈ ts, t.label.ReadsBack sampleCrates) →
    Run SampleStep (.start (recentlyUsed Uuid SchemaInfo) w capacity) ts s →
    ∀ s ∈ states (.start (recentlyUsed Uuid SchemaInfo) w capacity) ts,
      s.Consistent sampleCrates := by
  intro h
  have hlast : (tornLabels.foldlM (State.step sampleCrates sampleBroker "schema-registry")
      sampleState).map (fun s => (s.lookups.map fun lookup => (lookup.schemaId, lookup.returned),
        decide ((s.record sampleCrates 1).InForce ("address", .timeseries)))) =
      some ([(1, some ("address", .timeseries))], false) := by
    decide +kernel
  obtain ⟨s, hs, hlast⟩ := Option.map_eq_some_iff.mp hlast
  obtain ⟨hreturned, hnot⟩ := Prod.mk.inj hlast
  obtain ⟨ts, hrun, hlabels⟩ := Run.of_steps hs
  have hparse : ∀ t ∈ ts, t.label.ReadsBack sampleCrates :=
    forall_label hlabels (readsBack_labels (by simp [tornLabels, lookupLabel]))
  have hconsistent := h _ _ ts s hparse hrun s hrun.last_mem_states
  obtain ⟨lookup, hlookups, hlookup⟩ : ∃ lookup, s.lookups = [lookup] ∧
      (lookup.schemaId, lookup.returned) = (1, some ("address", .timeseries)) := by
    simpa [List.map_eq_singleton_iff] using hreturned
  obtain ⟨schemaId, program, seen, begun⟩ := lookup
  obtain ⟨rfl, hlookup⟩ := Prod.mk.inj hlookup
  unfold Lookup.returned at hlookup
  dsimp only at hlookup
  split at hlookup
  · cases hlookup
    exact of_decide_eq_false hnot
      (hconsistent.returned _ (by rw [hlookups]; exact List.mem_singleton_self _) _ rfl)
  · cases hlookup

end Samples
end CommonDataLayer.QueryRouter
