import CommonDataLayer.SchemaRegistry.ReplicationEffect

/-! # Requests that fail leave nothing behind, but for an unknown schema type

Every handler makes its checks before its writes, except that `update_schema_metadata` looks at the
number of the schema type after it has set the other fields. `failed_iff`: a request that fails has
changed the database or sent an event exactly if it is `HalfApplied`.
-/
namespace CommonDataLayer.SchemaRegistry
open Interaction PropertyGraph SchemaRegistryImpl
set_option autoImplicit false

/-- A program that leaves the world as it was when it fails. -/
def FailsClean (broker : Broker) {ε α : Type} (x : Fallible ε α) (w : World) : Prop :=
  ∀ e w', run broker x w = (.error e, w') → w' = w

/-- The number is no schema type, and another field of the request is new to the schema. -/
def Request.HalfApplied (crates : Crates) (broker : Broker) (g : Graph) : Request → Prop
  | updateSchemaMetadata id name topic address (some number) =>
    SchemaType.ofI32 number = none ∧
    (∀ name ∈ topic, broker.topicOrExchangeExists name = .ok true) ∧
    ∃ schemaId vertex, crates.parseUuid id = .ok schemaId ∧ g.vertexAt schemaId = some vertex ∧
      ∃ property ∈ metadataProperties name topic address none,
        vertex.props property.1 ≠ some property.2
  | _ => False

section Handlers
variable {broker : Broker} {crates : Crates} {α β ε : Type} {w w' : World}

/-! ## Checks -/

theorem FailsClean.of_read {x : Fallible ε α} (h : (run broker x w).2 = w) :
    FailsClean broker x w := by
  intro e w' hrun
  rw [hrun] at h
  exact h

theorem failsClean_parsed {r : Except Status α} : FailsClean broker (parsed r) w :=
  .of_read rfl

theorem failsClean_ensureTopic {topic : String} : FailsClean broker (ensureTopic crates topic) w := by
  have hread : (run broker (topicOrExchangeExists crates topic) w).2 = w := by
    rw [topicOrExchangeExists, db, run_onError, tryCall, run_onError]
    rfl
  refine .of_read ?_
  rw [ensureTopic, run_bind]
  cases hrun : run broker (topicOrExchangeExists crates topic) w with
  | mk r mid =>
    rw [hrun] at hread
    cases hread
    cases r with
    | error e => rfl
    | ok found => cases found <;> rfl

/-- A check, and then the rest from the same world. -/
theorem FailsClean.bind {x : Fallible ε α} {f : α → Fallible ε β} (hx : FailsClean broker x w)
    (hf : ∀ a mid, run broker x w = (.ok a, mid) → mid = w ∧ FailsClean broker (f a) w) :
    FailsClean broker (x >>= f) w := by
  intro e w' h
  cases hrun : run broker x w with
  | mk r mid =>
    cases r with
    | error _ =>
      rw [run_bind_error hrun] at h
      cases h
      exact hx _ _ hrun
    | ok a =>
      obtain ⟨hmid, hrest⟩ := hf a mid hrun
      rw [run_bind_ok hrun, hmid] at h
      exact hrest e w' h

theorem FailsClean.parsed_bind {r : Except Status α} {f : α → Rpc β}
    (hf : ∀ a, r = .ok a → FailsClean broker (f a) w) : FailsClean broker (parsed r >>= f) w := by
  refine failsClean_parsed.bind fun a mid hrun => ?_
  have hrun : (r, w) = (.ok a, mid) := hrun
  rw [Prod.mk.injEq] at hrun
  exact ⟨hrun.2.symm, hf a hrun.1⟩

theorem FailsClean.ensureTopic_bind {topic : String} {f : Unit → Rpc β}
    (hf : FailsClean broker (f ()) w) : FailsClean broker (ensureTopic crates topic >>= f) w :=
  failsClean_ensureTopic.bind fun _ _ hrun => ⟨run_ensureTopic hrun, hf⟩

/-! ## Writes -/

/-- One database operation, which writes only when it succeeds, and then the event. -/
theorem failsClean_db_respond {x : Registry α} {drawn : ℕ} {r : Except RegistryError (α × Graph)}
    {event : α → ReplicationEvent} {response : α → Response}
    (hx : run broker x w = w.settle drawn r) :
    FailsClean broker (db crates x >>= fun a =>
      replicateMessage (event a) >>= fun _ => pure (response a)) w := by
  intro e w' h
  have hdb : run broker (db crates x) w =
      ((w.settle drawn r).1.mapError (RegistryError.status crates), (w.settle drawn r).2) := by
    rw [db, run_onError, hx]
  cases r with
  | error e' =>
    rw [run_bind_error hdb] at h
    exact (congrArg Prod.snd h).symm
  | ok a =>
    rw [run_bind_ok hdb] at h
    cases h

/-! ## The metadata of a schema -/

/-- The end of `update_schema_metadata`, after the fields that are texts. -/
def updateType (crates : Crates) (schemaId : Uuid) (schemaType : Option ℤ)
    (event : ReplicationEvent) : Rpc Response := do
  ifSome schemaType fun schemaType =>
    match SchemaType.ofI32 schemaType with
    | some schemaType => db crates (updateSchemaType schemaId schemaType)
    | none => throw (RegistryError.status crates .invalidSchemaType)
  replicateMessage event
  return .empty

/-- The updates of `update_schema_metadata`, after the topic was checked. -/
def updates (crates : Crates) (schemaId : Uuid) (name topic address : Option String)
    (schemaType : Option ℤ) (event : ReplicationEvent) : Rpc Response := do
  ifSome name fun name => db crates (updateSchemaName schemaId name)
  ifSome topic fun topic => db crates (updateSchemaTopic schemaId topic)
  ifSome address fun address => db crates (updateSchemaQueryAddress schemaId address)
  updateType crates schemaId schemaType event

variable {id : Uuid} {event : ReplicationEvent}

theorem run_db_update_bind {name : PropName} {value : String} {f : Unit → Rpc β} :
    run broker (db crates (updateSchemaProperty name id value) >>= f) w =
      if w.graph.vertexAt id = none then
        (.error (RegistryError.status crates (.noSchemaWithId id)), w)
      else run broker (f ()) { w with graph := w.graph.setVertexProperty id name (.string value) } := by
  have hdb : run broker (db crates (updateSchemaProperty name id value)) w = _ :=
    (run_onError w _ _).trans (by rw [run_updateSchemaProperty, updateSchemaPropertyOutcome])
  rw [run_bind, hdb]
  by_cases hid : w.graph.vertexAt id = none
  · rw [if_pos hid, if_pos hid]
    rfl
  · rw [if_neg hid, if_neg hid]
    rfl

theorem run_ifSome_update_bind {name : PropName} {value : Option String} {f : Unit → Rpc β} :
    run broker (ifSome value (fun value => db crates (updateSchemaProperty name id value)) >>= f) w =
      if value ≠ none ∧ w.graph.vertexAt id = none then
        (.error (RegistryError.status crates (.noSchemaWithId id)), w)
      else run broker (f ())
        { w with graph := w.graph.setVertexProperties id (optionalProperty name value) } := by
  cases value with
  | none => rfl
  | some value =>
    refine run_db_update_bind.trans ?_
    simp only [ne_eq, reduceCtorEq, not_false_eq_true, true_and]
    rfl

theorem run_updateType_unknown {number : ℤ} (htype : SchemaType.ofI32 number = none) :
    run broker (updateType crates id (some number) event) w =
      (.error (RegistryError.status crates .invalidSchemaType), w) := by
  unfold updateType ifSome
  dsimp only
  rw [htype]
  rfl

theorem run_updateType {number : ℤ} {schemaType : SchemaType}
    (htype : SchemaType.ofI32 number = some schemaType) :
    run broker (updateType crates id (some number) event) w =
      if w.graph.vertexAt id = none then
        (.error (RegistryError.status crates (.noSchemaWithId id)), w)
      else run broker (replicateMessage event >>= fun _ => pure Response.empty) { w with
        graph := w.graph.setVertexProperty id .schemaType (.string schemaType.text) } := by
  unfold updateType ifSome
  dsimp only
  rw [htype]
  exact run_db_update_bind

theorem failsClean_updateType {number : Option ℤ} (hid : w.graph.vertexAt id = none) :
    FailsClean broker (updateType crates id number event) w := by
  intro e w' hrun
  cases number with
  | none => cases hrun
  | some number =>
    cases htype : SchemaType.ofI32 number with
    | none =>
      rw [run_updateType_unknown htype] at hrun
      exact (congrArg Prod.snd hrun).symm
    | some schemaType =>
      rw [run_updateType htype, if_pos hid] at hrun
      exact (congrArg Prod.snd hrun).symm

/-- For a schema that is there only an unknown type fails. -/
theorem unknown_of_run_updateType {number : Option ℤ} {e : Status}
    (hid : w.graph.vertexAt id ≠ none)
    (hrun : run broker (updateType crates id number event) w = (.error e, w')) :
    w' = w ∧ ∃ n, number = some n ∧ SchemaType.ofI32 n = none := by
  cases number with
  | none => cases hrun
  | some number =>
    cases htype : SchemaType.ofI32 number with
    | none =>
      rw [run_updateType_unknown htype] at hrun
      exact ⟨(congrArg Prod.snd hrun).symm, number, rfl, htype⟩
    | some schemaType =>
      rw [run_updateType htype, if_neg hid] at hrun
      cases hrun

theorem failsClean_updates {name topic address : Option String} {number : Option ℤ}
    (hid : w.graph.vertexAt id = none) :
    FailsClean broker (updates crates id name topic address number event) w := by
  have hstep {property : PropName} {value : Option String} {f : Unit → Rpc Response}
      (hf : FailsClean broker (f ()) w) : FailsClean broker
        (ifSome value (fun value => db crates (updateSchemaProperty property id value)) >>= f) w := by
    intro e w' hrun
    cases value with
    | none => exact hf e w' hrun
    | some value =>
      rw [run_ifSome_update_bind, if_pos ⟨Option.some_ne_none value, hid⟩] at hrun
      exact (congrArg Prod.snd hrun).symm
  exact hstep (hstep (hstep (failsClean_updateType hid)))

/-- For a schema that is there the fields that are texts are set. -/
theorem run_updates {name topic address : Option String} {number : Option ℤ}
    (hid : w.graph.vertexAt id ≠ none) :
    run broker (updates crates id name topic address number event) w =
      run broker (updateType crates id number event) { w with
        graph := w.graph.setVertexProperties id (metadataProperties name topic address none) } := by
  have hstep {w : World} (hid : w.graph.vertexAt id ≠ none) (property : PropName)
      (value : Option String) (f : Unit → Rpc Response) : run broker
        (ifSome value (fun value => db crates (updateSchemaProperty property id value)) >>= f) w =
      run broker (f ())
        { w with graph := w.graph.setVertexProperties id (optionalProperty property value) } := by
    rw [run_ifSome_update_bind, if_neg fun h => hid h.2]
  have hkept {g : Graph} (hid : g.vertexAt id ≠ none) (values : List (PropName × Value)) :
      (g.setVertexProperties id values).vertexAt id ≠ none := by
    rw [Graph.vertexAt_setVertexProperties, if_pos rfl, ne_eq, Option.map_eq_none_iff]
    exact hid
  unfold updates
  rw [updateSchemaName, hstep hid, updateSchemaTopic, hstep (hkept hid _), updateSchemaQueryAddress,
    hstep (hkept (hkept hid _) _)]
  simp only [metadataProperties, Graph.setVertexProperties_append]
  rfl

/-! ## All requests -/

theorem updateSchemaMetadata_eq {text : String} {name topic address : Option String}
    {number : Option ℤ} : handle crates (.updateSchemaMetadata text name topic address number) =
      parsed (parseUuid crates text) >>= fun id => ifSome topic (ensureTopic crates) >>= fun _ =>
        updates crates id name topic address number
          (.updateSchemaMetadata id name topic address none) := rfl

theorem metadataProperties_nodup (name topic address : Option String) :
    ((metadataProperties name topic address none).map (·.1)).Nodup := by
  cases name <;> cases topic <;> cases address <;> simp [metadataProperties]

theorem halfApplied_iff {g : Graph} {text : String} {name topic address : Option String}
    {number : Option ℤ} (hid : crates.parseUuid text = .ok id) :
    (Request.updateSchemaMetadata text name topic address number).HalfApplied crates broker g ↔
      (∃ n, number = some n ∧ SchemaType.ofI32 n = none) ∧
      (∀ name ∈ topic, broker.topicOrExchangeExists name = .ok true) ∧
      ∃ vertex, g.vertexAt id = some vertex ∧
        ∃ property ∈ metadataProperties name topic address none,
          vertex.props property.1 ≠ some property.2 := by
  cases number with
  | none => exact iff_of_false not_false (by simp)
  | some number =>
    unfold Request.HalfApplied
    simp only [hid, Except.ok.injEq, exists_and_left, exists_eq_left', Option.some.injEq]

theorem run_ifSome_ensureTopic {topic : Option String} :
    ∃ r, run broker (ifSome topic (ensureTopic crates)) w = (r, w) ∧
      (r = .ok () ↔ ∀ name ∈ topic, broker.topicOrExchangeExists name = .ok true) := by
  cases topic with
  | none => exact ⟨.ok (), rfl, iff_of_true rfl (by simp)⟩
  | some topic =>
    have hexists : run broker (topicOrExchangeExists crates topic) w =
        (((broker.topicOrExchangeExists topic).mapError fun error =>
          RegistryError.mqError error.display).mapError (RegistryError.status crates), w) := by
      rw [topicOrExchangeExists, db, run_onError, tryCall, run_onError]
      rfl
    simp only [ifSome, ensureTopic, Option.mem_some_iff, forall_eq']
    rw [run_bind, hexists]
    cases broker.topicOrExchangeExists topic with
    | error e => exact ⟨_, rfl, by simp⟩
    | ok found => cases found <;> exact ⟨_, rfl, by simp⟩

theorem failed_updateSchemaMetadata {text : String} {name topic address : Option String}
    {number : Option ℤ} {status : Status}
    (hrun : run broker (handle crates (.updateSchemaMetadata text name topic address number)) w =
      (.error status, w')) :
    w'.graph = w.graph ∧ w'.sent = w.sent ↔
      ¬ (Request.updateSchemaMetadata text name topic address number).HalfApplied crates broker
        w.graph := by
  rw [updateSchemaMetadata_eq] at hrun
  have hclean (hsame : w' = w) : w'.graph = w.graph ∧ w'.sent = w.sent := hsame ▸ ⟨rfl, rfl⟩
  cases hparse : parseUuid crates text with
  | error e =>
    rw [hparse] at hrun
    refine iff_of_true (hclean (congrArg Prod.snd hrun).symm) fun hhalf => ?_
    cases number with
    | none => exact hhalf
    | some number =>
      obtain ⟨-, -, schemaId, vertex, hid, -⟩ := hhalf
      rw [parseUuid, hid] at hparse
      cases hparse
  | ok id =>
    rw [hparse, run_bind_ok (show run broker (parsed (.ok id)) w = (.ok id, w) from rfl)] at hrun
    rw [halfApplied_iff (mem_of_parseUuid hparse)]
    obtain ⟨r, hcheck, htopic⟩ : ∃ r, run broker (ifSome topic (ensureTopic crates)) w = (r, w) ∧ _ :=
      run_ifSome_ensureTopic
    cases r with
    | error e =>
      rw [run_bind_error hcheck] at hrun
      refine iff_of_true (hclean (congrArg Prod.snd hrun).symm) fun hhalf => ?_
      cases htopic.mpr hhalf.2.1
    | ok _ =>
      rw [run_bind_ok hcheck] at hrun
      cases hid : w.graph.vertexAt id with
      | none => exact iff_of_true (hclean (failsClean_updates hid _ _ hrun)) (by simp)
      | some vertex =>
        have hpresent : w.graph.vertexAt id ≠ none := hid ▸ Option.some_ne_none vertex
        have hkept : (w.graph.setVertexProperties id
            (metadataProperties name topic address none)).vertexAt id ≠ none := by
          rw [Graph.vertexAt_setVertexProperties, if_pos rfl, ne_eq, Option.map_eq_none_iff]
          exact hpresent
        rw [run_updates hpresent] at hrun
        obtain ⟨rfl, hunknown⟩ := unknown_of_run_updateType hkept hrun
        have hnames := metadataProperties_nodup name topic address
        dsimp only
        rw [and_iff_left rfl, Graph.setVertexProperties_eq_self hnames hid, and_iff_right hunknown,
          and_iff_right (htopic.mp rfl)]
        simp

/-- A request that fails has no effect, exactly if it is not half applied. -/
theorem failed_iff {request : Request} {status : Status}
    (hfresh : Fresh w.supply w.graph (request.given crates))
    (hrun : run broker (handle crates request) w = (.error status, w')) :
    w'.graph = w.graph ∧ w'.sent = w.sent ↔ ¬ request.HalfApplied crates broker w.graph := by
  have hclean (hfails : FailsClean broker (handle crates request) w) :
      w'.graph = w.graph ∧ w'.sent = w.sent := by
    rw [hfails status w' hrun]
    exact ⟨rfl, rfl⟩
  cases request with
  | addSchema id name definition topic queryAddress schemaType =>
    refine iff_of_true (hclean ?_) not_false
    refine .parsed_bind fun given hgiven => .parsed_bind fun value _ => .ensureTopic_bind ?_
    have hnew := hfresh.of_subset (parsed_subset hgiven)
    exact failsClean_db_respond (run_addSchema w hnew)
  | addSchemaVersion id version definition =>
    refine iff_of_true (hclean ?_) not_false
    refine .parsed_bind fun schemaId hid => .parsed_bind fun version _ => .parsed_bind fun value _ => ?_
    have hnew := fresh_parsed hid hfresh
    exact failsClean_db_respond (run_addNewVersionOfSchema w hnew)
  | updateSchemaMetadata id name topic address schemaType => exact failed_updateSchemaMetadata hrun
  | addViewToSchema schemaId viewId name jmespath =>
    refine iff_of_true (hclean ?_) not_false
    refine .parsed_bind fun schema hid => .parsed_bind fun given hgiven => ?_
    have hnew := fresh_parsedView hid hgiven hfresh
    exact failsClean_db_respond (run_addViewToSchema w hnew)
  | updateView id name jmespath =>
    refine iff_of_true (hclean ?_) not_false
    exact .parsed_bind fun viewId _ => failsClean_db_respond (run_updateView w viewId _)

end Handlers

/-! ## A new name and an unknown type -/

def unknownTypeRequest : Request :=
  .updateSchemaMetadata (Uuid.toText 1) (some "renamed") none none (some 5)

def invalidSchemaType : Status := ⟨.internal, "Given schema type is invalid"⟩

theorem parseUuid_sample : parseUuid sampleCrates (Uuid.toText 1) = .ok 1 := by
  simp [parseUuid, sampleCrates, Except.mapError]

theorem fresh_unknownTypeRequest :
    Fresh sampleMaster.supply sampleMaster.graph (unknownTypeRequest.given sampleCrates) := by
  rw [unknownTypeRequest, Request.given, mem_of_parseUuid parseUuid_sample]
  exact fresh_sampleGraph (by decide) (by decide) (by decide)

theorem run_unknownTypeRequest :
    run sampleBroker (handle sampleCrates unknownTypeRequest) sampleMaster =
      (.error invalidSchemaType, { sampleMaster with
        graph := sampleGraph.setVertexProperties 1 [(.schemaName, .string "renamed")] }) := by
  have hschema : sampleMaster.graph.vertexAt 1 ≠ none := by
    rw [show sampleMaster.graph = sampleGraph from rfl, vertexAt_sampleGraph]
    exact Option.some_ne_none _
  rw [unknownTypeRequest, updateSchemaMetadata_eq, parseUuid_sample]
  exact (run_updates hschema).trans (run_updateType_unknown rfl)

theorem failed_iff_unknownTypeRequest :
    sampleGraph.setVertexProperties 1 [(.schemaName, .string "renamed")] = sampleGraph ∧
        sampleMaster.sent = sampleMaster.sent ↔
      ¬ unknownTypeRequest.HalfApplied sampleCrates sampleBroker sampleGraph :=
  failed_iff fresh_unknownTypeRequest run_unknownTypeRequest

/-- The request is refused, and the schema has its new name. -/
theorem failed_request_renames :
    ∃ w', run sampleBroker (handle sampleCrates unknownTypeRequest) sampleMaster =
        (.error invalidSchemaType, w') ∧ w'.graph ≠ sampleMaster.graph := by
  refine ⟨_, run_unknownTypeRequest, fun hsame => ?_⟩
  have hvertex : sampleGraph.vertexAt 1 = some _ := vertexAt_sampleGraph 1
  have hname := (Graph.setVertexProperties_eq_self (by decide) hvertex).mp hsame
    (.schemaName, .string "renamed") List.mem_cons_self
  simp [Graph.propsOf, Props.setAll, Schema.intoProperties, sampleNewSchema, NewSchema.split] at hname

end CommonDataLayer.SchemaRegistry
