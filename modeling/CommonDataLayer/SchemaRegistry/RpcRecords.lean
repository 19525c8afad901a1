import CommonDataLayer.SchemaRegistry.FailedRequests
import CommonDataLayer.SchemaRegistry.RpcReads

/-! # What the requests do to the records

* `run_getSchemaMetadata` to `run_getAllViews_request`: a request that reads answers what the records
  say.
* `served_addSchema` to `served_updateView`: a request that was served has changed one record, and
  its answer is about this record.
-/
namespace CommonDataLayer.SchemaRegistry
open Interaction PropertyGraph SchemaRegistryImpl
set_option autoImplicit false

section Requests
variable {crates : Crates} {broker : Broker} {r : Records} {w w' : World} {α β : Type}
  {text : String} {id : Uuid}

/-! ## Reading -/

/-- A handler that reads something of one identifier. -/
theorem run_read {x : Uuid → Registry α} {message : α → β} {result : Except RegistryError α}
    (hparse : crates.parseUuid text = .ok id) (hx : run broker (x id) w = (result, w)) :
    run broker (do
      let id ← parsed (parseUuid crates text)
      let a ← db crates (x id)
      return message a : Rpc β) w =
        ((result.map message).mapError (RegistryError.status crates), w) := by
  have hid : run broker (parsed (parseUuid crates text)) w = (.ok id, w) := by
    rw [parseUuid_eq_ok hparse]
    rfl
  have hdb : run broker (db crates (x id)) w =
      (result.mapError (RegistryError.status crates), w) := by
    rw [db, run_onError, hx]
  rw [run_bind_ok hid, run_bind, hdb]
  cases result <;> rfl

section Reads
variable {crates : RpcCrates}

theorem run_getSchemaMetadata (h : Represents w.graph r) (hparse : crates.parseUuid text = .ok id)
    (hid : ¬ NotSchema w.graph id) :
    run broker (getSchemaMetadata crates text) w =
      (((r.schema id).map Message.ofSchema).mapError (RegistryError.status crates.toCrates), w) :=
  run_read hparse (h.getSchema w hid)

theorem run_getView_request (h : Represents w.graph r) (hparse : crates.parseUuid text = .ok id) :
    run broker (SchemaRegistryImpl.getView crates text) w =
      (((r.view id).map Message.ofView).mapError (RegistryError.status crates.toCrates), w) :=
  run_read hparse (h.getView w id)

theorem run_getAllSchemas_request (h : Represents w.graph r) : ∃ entries,
    run broker (SchemaRegistryImpl.getAllSchemas crates) w =
      (.ok (Message.ofEntries Message.ofSchema entries), w) ∧ Lists entries r.schemas := by
  obtain ⟨entries, hread, hlists⟩ : ∃ entries, run broker SchemaRegistry.getAllSchemas w =
    (.ok entries, w) ∧ Lists entries r.schemas := h.getAllSchemas w
  refine ⟨entries, ?_, hlists⟩
  have hdb : run broker (db crates.toCrates SchemaRegistry.getAllSchemas) w = (.ok entries, w) :=
    run_db_eq_ok.mpr hread
  exact run_bind_ok hdb _

theorem run_getAllViews_request (h : Represents w.graph r) (hparse : crates.parseUuid text = .ok id)
    (hid : ¬ NotSchema w.graph id) : ∃ entries,
    run broker (SchemaRegistryImpl.getAllViewsOfSchema crates text) w =
      (((r.schema id).map fun _ => Message.ofEntries Message.ofView entries).mapError
        (RegistryError.status crates.toCrates), w) ∧ Lists entries (r.viewsOf id) := by
  obtain ⟨entries, hread, hlists⟩ : ∃ entries, run broker
    (SchemaRegistry.getAllViewsOfSchema id) w = ((r.schema id).map fun _ => entries, w) ∧
      Lists entries (r.viewsOf id) := h.getAllViewsOfSchema w hid
  refine ⟨entries, (run_read hparse hread).trans ?_, hlists⟩
  cases r.schema id <;> rfl

end Reads

/-! ## Writing -/

/-- The end of a handler, in any role. -/
theorem run_respond_graph {event : ReplicationEvent} {response answer : Response} {mid : World}
    (h : run broker (do
      replicateMessage event
      return response) mid = (.ok answer, w')) : answer = response ∧ w'.graph = mid.graph := by
  have hevent : run broker (replicateMessage event) mid =
      (.ok (), if mid.isMaster then { mid with sent := mid.sent ++ [event] } else mid) := rfl
  rw [run_bind_ok hevent] at h
  obtain ⟨hanswer, hworld⟩ := Prod.mk.inj h
  refine ⟨(Except.ok.inj hanswer).symm, ?_⟩
  rw [← hworld]
  split <;> rfl

theorem run_db_respond_graph {x : Registry α} {drawn : ℕ} {outcome : Except RegistryError (α × Graph)}
    {event : α → ReplicationEvent} {response : α → Response} {answer : Response}
    (hx : run broker x w = w.settle drawn outcome)
    (h : run broker (do
      let a ← db crates x
      replicateMessage (event a)
      return response a) w = (.ok answer, w')) :
    ∃ a, outcome = .ok (a, w'.graph) ∧ answer = response a := by
  obtain ⟨a, mid, hdb, hrest⟩ := run_bind_eq_ok.mp h
  rw [run_db_eq_ok, hx] at hdb
  obtain ⟨hr, -, -⟩ := settle_eq_ok hdb
  obtain ⟨hanswer, hgraph⟩ := run_respond_graph hrest
  exact ⟨a, by rw [hr, hgraph], hanswer⟩

theorem served_addSchema {name definition topic queryAddress : String} {schemaType : ℤ}
    {response : Response} (h : Represents w.graph r)
    (hfresh : Fresh w.supply w.graph ([] : List Uuid))
    (hrun : run broker (handle crates (.addSchema "" name definition topic queryAddress schemaType)) w =
      (.ok response, w')) : ∃ id, response = .id id.toText ∧ r.Free id ∧
        Represents w'.graph (r.setSchema id
          ⟨name, topic, queryAddress, (SchemaType.ofI32 schemaType).getD .documentStorage⟩) := by
  obtain ⟨given, hgiven, hrest⟩ := run_parsed_bind hrun
  obtain rfl : none = given := Except.ok.inj hgiven
  obtain ⟨value, -, hrest⟩ := run_parsed_bind hrest
  obtain ⟨_, mid, htopic, hrest⟩ := run_bind_eq_ok.mp hrest
  cases run_ensureTopic htopic
  have hnew : Fresh w.supply w.graph (none : Option Uuid).toList := hfresh
  obtain ⟨newId, hadd, hresponse⟩ := run_db_respond_graph (run_addSchema w hnew) hrest
  obtain ⟨r', hstep, hafter⟩ := h.addSchema hnew (Or.inr ⟨newId, hadd, rfl⟩)
  cases hstep with
  | addSchema free => exact ⟨newId, hresponse, free, hafter⟩

theorem served_addSchemaVersion {version definition : String} {response : Response}
    (h : Represents w.graph r) (hparse : crates.parseUuid text = .ok id)
    (hfresh : Fresh w.supply w.graph [id])
    (hrun : run broker (handle crates (.addSchemaVersion text version definition)) w =
      (.ok response, w')) : Represents w'.graph r ∧ w.graph.vertexAt id ≠ none := by
  obtain ⟨id', hid, hrest⟩ := run_parsed_bind hrun
  obtain rfl : id = id' := Except.ok.inj ((parseUuid_eq_ok hparse).symm.trans hid)
  obtain ⟨_, -, hrest⟩ := run_parsed_bind hrest
  obtain ⟨_, -, hrest⟩ := run_parsed_bind hrest
  obtain ⟨_, hadd, -⟩ := run_db_respond_graph (run_addNewVersionOfSchema w hfresh) hrest
  exact ⟨h.addVersion hfresh (Or.inr ⟨(), hadd, rfl⟩), (addNewVersionOutcome_eq_ok.mp hadd).1⟩

theorem served_addView {name jmespath : String} {response : Response} (h : Represents w.graph r)
    (hparse : crates.parseUuid text = .ok id) (hid : ¬ NotSchema w.graph id)
    (hfresh : Fresh w.supply w.graph [id])
    (hrun : run broker (handle crates (.addViewToSchema text "" name jmespath)) w =
      (.ok response, w')) : ∃ viewId, response = .id viewId.toText ∧ r.schemas id ≠ none ∧
        r.Free viewId ∧ Represents w'.graph (r.setView viewId id ⟨name, jmespath⟩) := by
  obtain ⟨id', hid', hrest⟩ := run_parsed_bind hrun
  obtain rfl : id = id' := Except.ok.inj ((parseUuid_eq_ok hparse).symm.trans hid')
  obtain ⟨given, hgiven, hrest⟩ := run_parsed_bind hrest
  obtain rfl : none = given := Except.ok.inj hgiven
  have hnew : Fresh w.supply w.graph (id :: (none : Option Uuid).toList) := hfresh
  obtain ⟨viewId, hadd, hresponse⟩ := run_db_respond_graph (run_addViewToSchema w hnew) hrest
  obtain ⟨r', hstep, hafter⟩ := h.addView hid hnew (Or.inr ⟨viewId, hadd, rfl⟩)
  cases hstep with
  | addView found valid free => exact ⟨viewId, hresponse, found, free, hafter⟩

theorem served_updateView {name jmespath : Option String} {response : Response}
    (h : Represents w.graph r) (hparse : crates.parseUuid text = .ok id)
    (hrun : run broker (handle crates (.updateView text name jmespath)) w = (.ok response, w')) :
    ∃ schemaId view, r.views id = some (schemaId, view) ∧
      Represents w'.graph (r.setView id schemaId (ViewUpdate.applied ⟨name, jmespath⟩ view)) := by
  obtain ⟨id', hid, hrest⟩ := run_parsed_bind hrun
  obtain rfl : id = id' := Except.ok.inj ((parseUuid_eq_ok hparse).symm.trans hid)
  obtain ⟨oldView, hupdate, -⟩ := run_db_respond_graph (run_updateView w id ⟨name, jmespath⟩) hrest
  obtain ⟨r', hstep, hafter⟩ := h.updateView (Or.inr ⟨oldView, hupdate, rfl⟩)
  cases hstep with
  | updateView found => exact ⟨_, _, found, hafter⟩

/-- The fields of a schema that an update gives. -/
def Schema.updated (schema : Schema) (name topic address : Option String)
    (schemaType : Option SchemaType) : Schema where
  name := name.getD schema.name
  kafkaTopic := topic.getD schema.kafkaTopic
  queryAddress := address.getD schema.queryAddress
  schemaType := schemaType.getD schema.schemaType

theorem Schema.setAll_metadata (schema : Schema) (name topic address : Option String)
    (schemaType : Option SchemaType) :
    schema.vertex.stored.props.setAll (metadataProperties name topic address schemaType) =
      (schema.updated name topic address schemaType).vertex.stored.props := by
  funext property
  cases name <;> cases topic <;> cases address <;> cases schemaType <;> cases property <;> rfl

/-- A request that names no schema and gives no field is served as well. -/
theorem served_updateSchemaMetadata {name topic address : Option String} {schemaType : Option SchemaType}
    {response : Response} (h : Represents w.graph r) (hparse : crates.parseUuid text = .ok id)
    (hid : ¬ NotSchema w.graph id) (hmaster : w.isMaster = true)
    (hfresh : Fresh w.supply w.graph [id])
    (hrun : run broker (handle crates (.updateSchemaMetadata text name topic address
      (schemaType.map SchemaType.toI32))) w = (.ok response, w')) :
    (∃ schema, r.schemas id = some schema ∧ Represents w'.graph
      (r.setSchema id (schema.updated name topic address schemaType))) ∨
      r.schemas id = none ∧ w'.graph = w.graph := by
  have hgiven : Fresh w.supply w.graph ((Request.updateSchemaMetadata text name topic address
      (schemaType.map SchemaType.toI32)).given crates) := by
    rw [Request.given, hparse]
    exact hfresh
  obtain ⟨event, -, hperformed⟩ := performed_of_run hmaster hgiven hrun
  cases hperformed with
  | @updateSchemaMetadata _ _ _ _ _ id' type' _ hid' htype hset =>
    obtain rfl : id = id' := Except.ok.inj ((parseUuid_eq_ok hparse).symm.trans hid')
    obtain rfl : schemaType = type' := by
      cases schemaType <;> cases type' <;> simp_all [SchemaType.ofI32_toI32]
    obtain ⟨hexists, hgraph⟩ := setProperties_eq_ok.mp hset
    rw [hgraph]
    cases hschema : r.schemas id with
    | some schema =>
      exact Or.inl ⟨schema, rfl, h.setSchema hschema (schema.setAll_metadata _ _ _ _)⟩
    | none =>
      have hnil : metadataProperties name topic address schemaType = [] := by
        by_contra hne
        exact hexists hne (h.no_vertex hid hschema)
      rw [hnil]
      exact Or.inr ⟨rfl, rfl⟩

end Requests
end CommonDataLayer.SchemaRegistry
