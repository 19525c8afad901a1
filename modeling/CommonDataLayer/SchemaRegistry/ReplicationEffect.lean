import CommonDataLayer.SchemaRegistry.Replica

/-! # Events carry the effect of their request, but for the schema type

A request that a Master has served leaves the event in `sent` and its effect in the database
(`Performed`). A Slave with the same database that consumes the event gets the same registry up to
the identifiers of definitions, except that `update_schema_metadata` puts `schema_type: None` into
the event whatever the request says.

`replicated_iff`: the Slave follows exactly if the request does not change the stored schema type.
-/
namespace CommonDataLayer.SchemaRegistry
open Interaction PropertyGraph SchemaRegistryImpl
set_option autoImplicit false

/-- The identifiers that a request names. -/
def Request.given (crates : Crates) : Request → List Uuid
  | addSchema id _ _ _ _ _ => (crates.parseUuid id).toOption.toList
  | addSchemaVersion id _ _ => (crates.parseUuid id).toOption.toList
  | updateSchemaMetadata id _ _ _ _ => (crates.parseUuid id).toOption.toList
  | addViewToSchema schemaId viewId _ _ =>
    (crates.parseUuid schemaId).toOption.toList ++ (crates.parseUuid viewId).toOption.toList
  | updateView id _ _ => (crates.parseUuid id).toOption.toList

/-- The request gives a schema another type than the one that is stored. -/
def Request.ChangesSchemaType (crates : Crates) (g : Graph) : Request → Prop
  | updateSchemaMetadata id _ _ _ (some number) => ∃ schemaId schemaType,
    crates.parseUuid id = .ok schemaId ∧ SchemaType.ofI32 number = some schemaType ∧
      (g.vertexAt schemaId).bind (·.props .schemaType) ≠ some (.string schemaType.text)
  | _ => False

/-- What a served request has sent, and the graph it has left. -/
inductive Performed (crates : Crates) (draw : ℕ → Uuid) (g : Graph) :
    Request → ReplicationEvent → Graph → Prop where
  | addSchema {id name definition topic queryAddress : String} {schemaType : ℤ}
      {schema : NewSchema} {given : Option Uuid} {newId : Uuid} {g' : Graph}
      (hgiven : parseOptionalUuid crates id = .ok given)
      (hadd : addSchemaOutcome crates draw g schema given = .ok (newId, g')) :
      Performed crates draw g (.addSchema id name definition topic queryAddress schemaType)
        (.addSchema schema newId) g'
  | addSchemaVersion {id version definition : String} {schemaId : Uuid}
      {newVersion : NewSchemaVersion} {g' : Graph} (hid : parseUuid crates id = .ok schemaId)
      (hadd : addNewVersionOutcome crates draw g schemaId newVersion = .ok ((), g')) :
      Performed crates draw g (.addSchemaVersion id version definition)
        (.addSchemaVersion schemaId newVersion) g'
  | updateSchemaMetadata {id : String} {name topic address : Option String} {number : Option ℤ}
      {schemaId : Uuid} {schemaType : Option SchemaType} {g' : Graph}
      (hid : parseUuid crates id = .ok schemaId)
      (htype : number.map SchemaType.ofI32 = schemaType.map some)
      (hset : setProperties g schemaId (metadataProperties name topic address schemaType) = .ok g') :
      Performed crates draw g (.updateSchemaMetadata id name topic address number)
        (.updateSchemaMetadata schemaId name topic address none) g'
  | addViewToSchema {schemaId viewId name jmespath : String} {schema newId : Uuid}
      {given : Option Uuid} {g' : Graph} (hid : parseUuid crates schemaId = .ok schema)
      (hgiven : parseOptionalUuid crates viewId = .ok given)
      (hadd : addViewOutcome crates draw g schema ⟨name, jmespath⟩ given = .ok (newId, g')) :
      Performed crates draw g (.addViewToSchema schemaId viewId name jmespath)
        (.addViewToSchema schema ⟨name, jmespath⟩ newId) g'
  | updateView {id : String} {name jmespath : Option String} {viewId : Uuid} {oldView : View}
      {g' : Graph} (hid : parseUuid crates id = .ok viewId)
      (hupdate : updateViewOutcome crates g viewId ⟨name, jmespath⟩ = .ok (oldView, g')) :
      Performed crates draw g (.updateView id name jmespath) (.updateView viewId ⟨name, jmespath⟩) g'

/-! ## The Master -/

section Master
variable {broker : Broker} {crates : Crates} {α : Type} {w w' : World}

theorem run_parsed_bind {β : Type} {r : Except Status α} {f : α → Rpc β} {b : β}
    (h : run broker (parsed r >>= f) w = (.ok b, w')) :
    ∃ a, r = .ok a ∧ run broker (f a) w = (.ok b, w') := by
  obtain ⟨a, mid, hr, hrest⟩ := run_bind_eq_ok.mp h
  have hr : (r, w) = (.ok a, mid) := hr
  rw [Prod.mk.injEq] at hr
  exact ⟨a, hr.1, by rw [hr.2]; exact hrest⟩

theorem run_db_eq_ok {x : Registry α} {a : α} :
    run broker (db crates x) w = (.ok a, w') ↔ run broker x w = (.ok a, w') := by
  rw [db, run_onError]
  cases run broker x w with
  | mk r mid => cases r <;> simp [Except.mapError]

theorem run_ensureTopic {topic : String} (h : run broker (ensureTopic crates topic) w = (.ok (), w')) :
    w' = w := by
  obtain ⟨found, mid, hexists, hrest⟩ := run_bind_eq_ok.mp h
  have hmid : (run broker (topicOrExchangeExists crates topic) w).2 = w := by
    rw [topicOrExchangeExists, db, run_onError, tryCall, run_onError]
    rfl
  rw [hexists] at hmid
  cases found with
  | true =>
    cases hrest
    exact hmid
  | false => cases hrest

theorem run_replicateMessage (hmaster : w.isMaster = true) (event : ReplicationEvent) :
    run broker (replicateMessage event) w = (.ok (), { w with sent := w.sent ++ [event] }) := by
  show (Except.ok (), if w.isMaster then { w with sent := w.sent ++ [event] } else w) = _
  rw [if_pos hmaster]

theorem settle_eq_ok {drawn : ℕ} {r : Except RegistryError (α × Graph)} {a : α}
    (h : w.settle drawn r = (.ok a, w')) :
    r = .ok (a, w'.graph) ∧ w'.sent = w.sent ∧ w'.isMaster = w.isMaster := by
  cases r with
  | error e => cases h
  | ok r =>
    cases h
    exact ⟨rfl, rfl, rfl⟩

theorem run_ifSome_db {name : PropName} {id : Uuid} {value : Option α} {text : α → String}
    (h : run broker (ifSome value fun value => db crates (updateSchemaProperty name id (text value))) w
      = (.ok (), w')) :
    setProperties w.graph id (optionalProperty name (value.map text)) = .ok w'.graph ∧
      w'.sent = w.sent ∧ w'.isMaster = w.isMaster := by
  cases value with
  | none =>
    cases h
    exact ⟨rfl, rfl, rfl⟩
  | some value =>
    have hrun := run_db_eq_ok.mp h
    rw [run_updateSchemaProperty] at hrun
    obtain ⟨hset, hsent, hmaster⟩ := settle_eq_ok hrun
    refine ⟨?_, hsent, hmaster⟩
    obtain ⟨hid, hg⟩ := updateSchemaPropertyOutcome_eq_ok.mp hset
    rw [setProperties, if_neg fun h' => hid h'.2]
    exact congrArg Except.ok (congrArg Prod.snd hg).symm

theorem run_ifSome_db_text {name : PropName} {id : Uuid} {value : Option String}
    (h : run broker (ifSome value fun value => db crates (updateSchemaProperty name id value)) w
      = (.ok (), w')) :
    setProperties w.graph id (optionalProperty name value) = .ok w'.graph ∧
      w'.sent = w.sent ∧ w'.isMaster = w.isMaster := by
  have hset := run_ifSome_db h
  rw [Option.map_id'] at hset
  exact hset

theorem run_ifSome_type {id : Uuid} {number : Option ℤ}
    (h : run broker (ifSome number fun number =>
      match SchemaType.ofI32 number with
      | some schemaType => db crates (updateSchemaType id schemaType)
      | none => throw (RegistryError.status crates .invalidSchemaType)) w = (.ok (), w')) :
    ∃ schemaType : Option SchemaType, number.map SchemaType.ofI32 = schemaType.map some ∧
      setProperties w.graph id (optionalProperty .schemaType (schemaType.map SchemaType.text)) =
        .ok w'.graph ∧ w'.sent = w.sent ∧ w'.isMaster = w.isMaster := by
  cases number with
  | none =>
    cases h
    exact ⟨none, rfl, rfl, rfl, rfl⟩
  | some number =>
    unfold ifSome at h
    dsimp only at h
    cases htype : SchemaType.ofI32 number with
    | none =>
      rw [htype] at h
      cases h
    | some schemaType =>
      rw [htype] at h
      exact ⟨some schemaType, congrArg some htype, run_ifSome_db h⟩

/-- The end of a handler. -/
theorem run_respond {event : ReplicationEvent} {response answer : Response} {mid : World}
    (hmaster : mid.isMaster = true) (h : run broker (do
      replicateMessage event
      return response) mid = (.ok answer, w')) :
    w'.graph = mid.graph ∧ w'.sent = mid.sent ++ [event] := by
  rw [run_bind_ok (run_replicateMessage hmaster event)] at h
  cases h
  exact ⟨rfl, rfl⟩

/-- A handler that parsed its request, does one database operation and sends an event. -/
theorem run_db_respond {x : Registry α} {drawn : ℕ} {r : Except RegistryError (α × Graph)}
    {event : α → ReplicationEvent} {response : α → Response} {answer : Response}
    (hmaster : w.isMaster = true) (hx : run broker x w = w.settle drawn r)
    (h : run broker (do
      let a ← db crates x
      replicateMessage (event a)
      return response a) w = (.ok answer, w')) :
    ∃ a, r = .ok (a, w'.graph) ∧ w'.sent = w.sent ++ [event a] := by
  obtain ⟨a, mid, hdb, hrest⟩ := run_bind_eq_ok.mp h
  rw [run_db_eq_ok, hx] at hdb
  obtain ⟨hr, hsent, hkept⟩ := settle_eq_ok hdb
  obtain ⟨hgraph, hafter⟩ := run_respond (hkept.trans hmaster) hrest
  exact ⟨a, by rw [hr, hgraph], by rw [hafter, hsent]⟩

theorem parseUuid_eq_ok {text : String} {id : Uuid} (hparse : crates.parseUuid text = .ok id) :
    parseUuid crates text = .ok id := by
  rw [parseUuid, hparse]
  rfl

theorem mem_of_parseUuid {text : String} {id : Uuid} (h : parseUuid crates text = .ok id) :
    crates.parseUuid text = .ok id := by
  unfold parseUuid at h
  cases hparse : crates.parseUuid text with
  | error e => rw [hparse] at h; cases h
  | ok id' => rw [hparse] at h; cases h; rfl

theorem mem_of_parseOptionalUuid {text : String} {given : Option Uuid}
    (h : parseOptionalUuid crates text = .ok given) :
    ∀ id ∈ given.toList, crates.parseUuid text = .ok id := by
  intro id hid
  unfold parseOptionalUuid at h
  split at h
  · cases h
    cases hid
  · cases hparse : crates.parseUuid text with
    | error e => rw [hparse] at h; cases h
    | ok id' =>
      rw [hparse] at h
      cases h
      rw [List.mem_singleton.mp hid]

section Parsed
variable {draw : ℕ → Uuid} {g : Graph} {text text' : String} {id : Uuid} {given : Option Uuid}

theorem fresh_parsed (hid : parseUuid crates text = .ok id)
    (hfresh : Fresh draw g (crates.parseUuid text).toOption.toList) : Fresh draw g [id] := by
  rw [mem_of_parseUuid hid] at hfresh
  exact hfresh

theorem parsed_subset (hgiven : parseOptionalUuid crates text = .ok given) :
    given.toList ⊆ (crates.parseUuid text).toOption.toList := by
  intro id hid
  rw [mem_of_parseOptionalUuid hgiven id hid]
  exact List.mem_singleton_self id

theorem fresh_parsedView (hid : parseUuid crates text = .ok id)
    (hgiven : parseOptionalUuid crates text' = .ok given)
    (hfresh : Fresh draw g ((crates.parseUuid text).toOption.toList ++
      (crates.parseUuid text').toOption.toList)) : Fresh draw g (id :: given.toList) := by
  rw [mem_of_parseUuid hid] at hfresh
  exact hfresh.of_subset (List.cons_subset_cons id (parsed_subset hgiven))

end Parsed

theorem performed_of_run (hmaster : w.isMaster = true) {request : Request} {response : Response}
    (hfresh : Fresh w.supply w.graph (request.given crates))
    (hrun : run broker (handle crates request) w = (.ok response, w')) :
    ∃ event, w'.sent = w.sent ++ [event] ∧
      Performed crates w.supply w.graph request event w'.graph := by
  cases request with
  | addSchema id name definition topic queryAddress schemaType =>
    obtain ⟨given, hgiven, hrest⟩ := run_parsed_bind hrun
    obtain ⟨value, _, hrest⟩ := run_parsed_bind hrest
    obtain ⟨_, mid, htopic, hrest⟩ := run_bind_eq_ok.mp hrest
    cases run_ensureTopic htopic
    have hnew := hfresh.of_subset (parsed_subset hgiven)
    obtain ⟨newId, hadd, hsent⟩ := run_db_respond hmaster (run_addSchema w hnew) hrest
    exact ⟨_, hsent, .addSchema hgiven hadd⟩
  | addSchemaVersion id version definition =>
    obtain ⟨schemaId, hid, hrest⟩ := run_parsed_bind hrun
    obtain ⟨version, _, hrest⟩ := run_parsed_bind hrest
    obtain ⟨value, _, hrest⟩ := run_parsed_bind hrest
    have hnew := fresh_parsed hid hfresh
    obtain ⟨_, hadd, hsent⟩ := run_db_respond hmaster (run_addNewVersionOfSchema w hnew) hrest
    exact ⟨_, hsent, .addSchemaVersion hid hadd⟩
  | updateSchemaMetadata id name topic address schemaType =>
    obtain ⟨schemaId, hid, hrest⟩ := run_parsed_bind hrun
    obtain ⟨_, mid, htopic, hrest⟩ := run_bind_eq_ok.mp hrest
    have hsame : mid = w := by
      cases topic with
      | none => cases htopic; rfl
      | some topic => exact run_ensureTopic htopic
    rw [hsame] at hrest
    obtain ⟨_, afterName, hname, hrest⟩ := run_bind_eq_ok.mp hrest
    obtain ⟨hname, hsent₁, hmaster₁⟩ := run_ifSome_db_text hname
    obtain ⟨_, afterTopic, htopic, hrest⟩ := run_bind_eq_ok.mp hrest
    obtain ⟨htopic, hsent₂, hmaster₂⟩ := run_ifSome_db_text htopic
    obtain ⟨_, afterAddress, haddress, hrest⟩ := run_bind_eq_ok.mp hrest
    obtain ⟨haddress, hsent₃, hmaster₃⟩ := run_ifSome_db_text haddress
    obtain ⟨_, afterType, htype, hrest⟩ := run_bind_eq_ok.mp hrest
    obtain ⟨newType, hnumber, htype, hsent₄, hmaster₄⟩ := run_ifSome_type htype
    obtain ⟨hgraph, hsent⟩ := run_respond
      (by rw [hmaster₄, hmaster₃, hmaster₂, hmaster₁]; exact hmaster) hrest
    refine ⟨_, by rw [hsent, hsent₄, hsent₃, hsent₂, hsent₁], .updateSchemaMetadata hid hnumber ?_⟩
    rw [metadataProperties, setProperties_append, hname, ok_bind, setProperties_append, htopic,
      ok_bind, setProperties_append, haddress, ok_bind, htype, hgraph]
  | addViewToSchema schemaId viewId name jmespath =>
    obtain ⟨schema, hid, hrest⟩ := run_parsed_bind hrun
    obtain ⟨given, hgiven, hrest⟩ := run_parsed_bind hrest
    have hnew := fresh_parsedView hid hgiven hfresh
    obtain ⟨newId, hadd, hsent⟩ := run_db_respond hmaster (run_addViewToSchema w hnew) hrest
    exact ⟨_, hsent, .addViewToSchema hid hgiven hadd⟩
  | updateView id name jmespath =>
    obtain ⟨viewId, hid, hrest⟩ := run_parsed_bind hrun
    obtain ⟨oldView, hupdate, hsent⟩ := run_db_respond hmaster (run_updateView w viewId _) hrest
    exact ⟨_, hsent, .updateView hid hupdate⟩

end Master
/-! ## The Slave -/

section Slave
variable {broker : Broker} {crates : Crates} {draw draw' : ℕ → Uuid} {g g' : Graph}

/-- A Slave that knows the schema draws an identifier for the first definition only. -/
theorem addSchema_follows {schema : NewSchema} {given : Option Uuid} {newId : Uuid}
    (hfresh : Fresh draw g given.toList) (hfresh' : Fresh draw' g [newId])
    (hadd : addSchemaOutcome crates draw g schema given = .ok (newId, g')) :
    ∃ g'', (ReplicationEvent.addSchema schema newId).outcome crates draw' g = .ok g'' ∧
      EqUpToDefinitions g' g'' := by
  obtain ⟨definition, hdefinition, hnew, hr⟩ := addSchemaOutcome_eq_ok.mp hadd
  obtain ⟨hid, hg⟩ := Prod.mk.inj hr
  obtain ⟨hd, hne⟩ := firstDefinitionId_free hfresh
  have hfree : g.vertexAt newId = none := hid ▸ newVertexId_free hfresh hnew
  rw [← hid] at hne hg
  have hadd' : addSchemaOutcome crates draw' g schema (some newId) = .ok _ :=
    addSchemaOutcome_eq_ok.mpr ⟨definition, hdefinition, by simpa using hfree, rfl⟩
  refine ⟨withSchema crates g newId (draw' 0) schema.split.1 definition, ?_, ?_⟩
  · rw [ReplicationEvent.outcome, hadd']
    rfl
  · rw [hg]
    apply eqUpToDefinitions_withDefinition
    · rw [Graph.vertexAt_putVertex _ hfree, if_pos rfl]
      exact Option.some_ne_none _
    · rw [Graph.vertexAt_putVertex _ hfree, if_neg hne]
      exact hd
    · have hne' : newId ≠ draw' 0 := fun heq =>
        hfresh'.notGiven 0 (by omega) (heq ▸ List.mem_singleton_self _)
      rw [Graph.vertexAt_putVertex _ hfree, if_neg hne']
      exact hfresh'.free 0 (by omega)

theorem addSchemaVersion_follows {schemaId : Uuid} {newVersion : NewSchemaVersion}
    (hd : g.vertexAt (draw 0) = none) (hd' : g.vertexAt (draw' 0) = none)
    (hadd : addNewVersionOutcome crates draw g schemaId newVersion = .ok ((), g')) :
    ∃ g'', (ReplicationEvent.addSchemaVersion schemaId newVersion).outcome crates draw' g = .ok g'' ∧
      EqUpToDefinitions g' g'' := by
  obtain ⟨hid, hversion, definition, hdefinition, hr⟩ := addNewVersionOutcome_eq_ok.mp hadd
  have hadd' : addNewVersionOutcome crates draw' g schemaId newVersion = .ok _ :=
    addNewVersionOutcome_eq_ok.mpr ⟨hid, hversion, definition, hdefinition, rfl⟩
  refine ⟨withDefinition crates g schemaId (draw' 0) newVersion.version definition, ?_, ?_⟩
  · rw [ReplicationEvent.outcome, hadd']
    rfl
  · rw [(Prod.mk.inj hr).2]
    exact eqUpToDefinitions_withDefinition hid hd hd' _ _

theorem addView_follows {schemaId newId : Uuid} {view : View} {given : Option Uuid}
    (hfresh : Fresh draw g given.toList)
    (hadd : addViewOutcome crates draw g schemaId view given = .ok (newId, g')) :
    (ReplicationEvent.addViewToSchema schemaId view newId).outcome crates draw' g = .ok g' := by
  obtain ⟨hid, hparse, hnew, hr⟩ := addViewOutcome_eq_ok.mp hadd
  obtain ⟨hid', hg⟩ := Prod.mk.inj hr
  have hfree : g.vertexAt newId = none := hid' ▸ newVertexId_free hfresh hnew
  have hadd' : addViewOutcome crates draw' g schemaId view (some newId) = .ok _ :=
    addViewOutcome_eq_ok.mpr ⟨hid, hparse, by simpa using hfree, rfl⟩
  rw [ReplicationEvent.outcome, hadd', hg, ← hid']
  rfl

/-- The stored type does not change exactly if the graph without the new type is the same. -/
theorem eqUpToDefinitions_setType {id : Uuid} {value : Value} (hid : g.vertexAt id ≠ none)
    {name : PropName} : EqUpToDefinitions (g.setVertexProperty id name value) g ↔
      (g.vertexAt id).bind (·.props name) = some value := by
  constructor
  · rintro ⟨σ, hiso, _⟩
    obtain ⟨vertex, hvertex⟩ := Option.ne_none_iff_exists'.mp hid
    rw [hvertex, Option.bind_some]
    have : Finite Uuid := Finite.of_injective BitVec.toFin fun _ _ => BitVec.toFin_inj.mp
    by_contra hne
    exact Graph.not_iso_setVertexProperty hvertex hne hiso
  · intro hstored
    rw [Graph.setVertexProperty_self hstored]
    exact .refl g

theorem metadataProperties_some (name topic address : Option String) (schemaType : SchemaType) :
    metadataProperties name topic address (some schemaType) =
      metadataProperties name topic address none ++ [(.schemaType, .string schemaType.text)] := by
  simp [metadataProperties]

theorem metadata_follows {id : String} {name topic address : Option String} {number : Option ℤ}
    {schemaId : Uuid} {schemaType : Option SchemaType} (hid : parseUuid crates id = .ok schemaId)
    (htype : number.map SchemaType.ofI32 = schemaType.map some)
    (hset : setProperties g schemaId (metadataProperties name topic address schemaType) = .ok g') :
    (∃ g'', setProperties g schemaId (metadataProperties name topic address none) = .ok g'' ∧
        EqUpToDefinitions g' g'') ↔
      ¬ (Request.updateSchemaMetadata id name topic address number).ChangesSchemaType crates g := by
  cases number with
  | none =>
    cases schemaType with
    | none => exact iff_of_true ⟨g', hset, .refl g'⟩ not_false
    | some schemaType => cases htype
  | some number =>
    cases schemaType with
    | none => cases htype
    | some schemaType =>
      have htype : SchemaType.ofI32 number = some schemaType := Option.some.inj htype
      obtain ⟨hexists, hg⟩ := setProperties_eq_ok.mp hset
      have hschema : g.vertexAt schemaId ≠ none := hexists (by simp [metadataProperties])
      have hchanges : (Request.updateSchemaMetadata id name topic address
          (some number)).ChangesSchemaType crates g ↔
          (g.vertexAt schemaId).bind (·.props .schemaType) ≠ some (.string schemaType.text) := by
        constructor
        · rintro ⟨schemaId', schemaType', hparse, hnumber, hne⟩
          rw [mem_of_parseUuid hid] at hparse
          rw [htype] at hnumber
          cases hparse
          cases hnumber
          exact hne
        · exact fun hne => ⟨schemaId, schemaType, mem_of_parseUuid hid, htype, hne⟩
      have hold : ((g.setVertexProperties schemaId (metadataProperties name topic address
          none)).vertexAt schemaId).bind (·.props .schemaType) =
            (g.vertexAt schemaId).bind (·.props .schemaType) := by
        rw [Graph.vertexAt_setVertexProperties, if_pos rfl, Option.bind_map]
        refine congrArg _ (funext fun vertex => Props.setAll_of_notMem ?_)
        cases name <;> cases topic <;> cases address <;> simp [metadataProperties]
      have hslave : setProperties g schemaId (metadataProperties name topic address none) =
          .ok (g.setVertexProperties schemaId (metadataProperties name topic address none)) :=
        setProperties_eq_ok.mpr ⟨fun _ => hschema, rfl⟩
      have hkept : (g.setVertexProperties schemaId
          (metadataProperties name topic address none)).vertexAt schemaId ≠ none := by
        rw [Graph.vertexAt_setVertexProperties, if_pos rfl, ne_eq, Option.map_eq_none_iff]
        exact hschema
      rw [hchanges, not_not, ← hold, ← eqUpToDefinitions_setType hkept, hslave, hg,
        metadataProperties_some, Graph.setVertexProperties_append]
      simp only [Except.ok.injEq, exists_eq_left']
      rfl

theorem slave_follows {request : Request} {event : ReplicationEvent}
    (h : Performed crates draw g request event g') (hfresh : Fresh draw g (request.given crates))
    (hfresh' : Fresh draw' g event.given) :
    (∃ g'', event.outcome crates draw' g = .ok g'' ∧ EqUpToDefinitions g' g'') ↔
      ¬ request.ChangesSchemaType crates g := by
  cases h with
  | addSchema hgiven hadd =>
    have hnew := hfresh.of_subset (parsed_subset hgiven)
    exact iff_of_true (addSchema_follows hnew hfresh' hadd) not_false
  | addSchemaVersion _ hadd =>
    have hd := hfresh.free 0 (by omega)
    exact iff_of_true (addSchemaVersion_follows hd (hfresh'.free 0 (by omega)) hadd) not_false
  | updateSchemaMetadata hid htype hset => exact metadata_follows hid htype hset
  | addViewToSchema _ hgiven hadd =>
    have hnew := hfresh.of_subset (List.subset_append_of_subset_right _ (parsed_subset hgiven))
    exact iff_of_true ⟨g', addView_follows hnew hadd, .refl g'⟩ not_false
  | updateView _ hupdate =>
    refine iff_of_true ⟨g', ?_, .refl g'⟩ not_false
    rw [ReplicationEvent.outcome, hupdate]
    rfl

/-- The Slave consumes the message, and its registry becomes that of `g'`. -/
def Follows (broker : Broker) (crates : Crates) (message : MessagingSystem.CommunicationMessage)
    (v : World) (g' : Graph) : Prop :=
  (run broker (Slave.consumeMessage crates message) v).1 = .ok () ∧
    EqUpToDefinitions g' (run broker (Slave.consumeMessage crates message) v).2.graph

theorem follows_iff {message : MessagingSystem.CommunicationMessage} {v : World}
    {convert : RegistryError → AnyhowError} {outcome : Except RegistryError Graph}
    (h : Leaves broker (Slave.consumeMessage crates message) convert v outcome) :
    Follows broker crates message v g' ↔ ∃ g'', outcome = .ok g'' ∧ EqUpToDefinitions g' g'' := by
  obtain ⟨hresult, hgraph⟩ := h
  unfold Follows
  rw [hgraph]
  cases outcome with
  | ok g'' =>
    refine (and_iff_right ?_).trans (by simp [Except.toOption])
    cases hrun : (run broker (Slave.consumeMessage crates message) v).1 with
    | ok a => rfl
    | error e => rw [hrun] at hresult; cases hresult
  | error e =>
    refine iff_of_false (fun h => ?_) (by simp)
    rw [h.1] at hresult
    cases hresult

end Slave

/-! ## Master and Slave -/

/-- A request that a Master serves sends one event, and a Slave with the same database that consumes
it gets the same registry, exactly if the request does not change the schema type. -/
theorem replicated_iff {crates : Crates} {broker : Broker} {request : Request}
    {response : Response} {w w' : World} (hmaster : w.isMaster = true)
    (hfresh : Fresh w.supply w.graph (request.given crates))
    (hrun : run broker (handle crates request) w = (.ok response, w')) :
    ∃ event, w'.sent = w.sent ++ [event] ∧
      ∀ (slaveBroker : Broker) (message : MessagingSystem.CommunicationMessage) (text : String)
        (v : World), message.payload = .ok text → crates.parseEvent text = .ok event →
        slaveBroker.ack = .ok () → v.graph = w.graph → Fresh v.supply v.graph event.given →
        (Follows slaveBroker crates message v w'.graph ↔
          ¬ request.ChangesSchemaType crates w.graph) := by
  obtain ⟨event, hsent, hperformed⟩ := performed_of_run hmaster hfresh hrun
  refine ⟨event, hsent, fun slaveBroker message text v hpayload hevent hack hgraph hslave => ?_⟩
  rw [follows_iff (leaves_consumeMessage v hpayload hevent hack hslave), hgraph]
  exact slave_follows hperformed hfresh (hgraph ▸ hslave)

/-! ## A new schema type -/

def sampleEventText : String :=
  "\x7b\"UpdateSchemaMetadata\":\x7b\"id\":\"00000000-0000-0000-0000-000000000001\"," ++
  "\"name\":null,\"topic\":null,\"query_address\":null,\"schema_type\":null\x7d\x7d"

def sampleEvent : ReplicationEvent := .updateSchemaMetadata 1 none none none none

def sampleEventCrates : Crates :=
  { sampleCrates with parseEvent := fun text =>
      if text = sampleEventText then .ok sampleEvent else sampleCrates.parseEvent text }

def sampleRequest : Request := .updateSchemaMetadata (Uuid.toText 1) none none none (some 1)

def sampleMaster : World := sampleWorld sampleGraph 5 6

def sampleMasterAfter : World :=
  { sampleMaster with
    graph := sampleGraph.setVertexProperty 1 .schemaType (.string "Timeseries")
    sent := [sampleEvent] }

theorem parse_sampleId : sampleEventCrates.parseUuid (Uuid.toText 1) = .ok 1 := by
  simp [sampleEventCrates, sampleCrates]

theorem parse_sampleEvent : sampleEventCrates.parseEvent sampleEventText = .ok sampleEvent := by
  simp [sampleEventCrates]

theorem run_sampleRequest : run sampleBroker (handle sampleEventCrates sampleRequest) sampleMaster =
    (.ok .empty, sampleMasterAfter) := by
  have hparse : parseUuid sampleEventCrates (Uuid.toText 1) = .ok 1 := parseUuid_eq_ok parse_sampleId
  have hschema : sampleGraph.vertexAt 1 ≠ none := by
    rw [vertexAt_sampleGraph]
    exact Option.some_ne_none _
  have hupdate : run sampleBroker (db sampleEventCrates (updateSchemaType 1 .timeseries)) sampleMaster =
      (.ok (), { sampleMaster with
        graph := sampleGraph.setVertexProperty 1 .schemaType (.string "Timeseries") }) := by
    refine run_db_eq_ok.mpr ?_
    have hset : updateSchemaPropertyOutcome sampleMaster.graph .schemaType 1
        (SchemaType.text .timeseries) = .ok _ :=
      updateSchemaPropertyOutcome_eq_ok.mpr ⟨hschema, rfl⟩
    rw [updateSchemaType, run_updateSchemaProperty, hset]
    rfl
  show run sampleBroker (SchemaRegistryImpl.updateSchemaMetadata sampleEventCrates (Uuid.toText 1)
    none none none (some 1)) sampleMaster = _
  unfold SchemaRegistryImpl.updateSchemaMetadata
  rw [hparse]
  exact (run_bind_ok hupdate _).trans rfl

theorem fresh_sampleGraph {first second : Uuid} (hfirst : first ≠ 1 ∧ first ≠ 2)
    (hsecond : second ≠ 1 ∧ second ≠ 2) (hne : first ≠ second) :
    Fresh (sampleWorld sampleGraph first second).supply sampleGraph [1] := by
  refine ⟨fun n _ => ?_, fun n _ => ?_, hne⟩
  · rw [vertexAt_sampleGraph]
    cases n with
    | zero => exact (if_neg hfirst.2.symm).trans (if_neg hfirst.1.symm)
    | succ n => exact (if_neg hsecond.2.symm).trans (if_neg hsecond.1.symm)
  · rw [List.mem_singleton]
    cases n with
    | zero => exact hfirst.1
    | succ n => exact hsecond.1

theorem fresh_sampleRequest :
    Fresh sampleMaster.supply sampleMaster.graph (sampleRequest.given sampleEventCrates) := by
  rw [sampleRequest, Request.given, parse_sampleId]
  exact fresh_sampleGraph (by decide) (by decide) (by decide)

theorem replicated_iff_sampleRequest : ∃ event, sampleMasterAfter.sent = [] ++ [event] ∧
    ∀ (slaveBroker : Broker) (message : MessagingSystem.CommunicationMessage) (text : String)
      (v : World), message.payload = .ok text → sampleEventCrates.parseEvent text = .ok event →
      slaveBroker.ack = .ok () → v.graph = sampleGraph → Fresh v.supply v.graph event.given →
      (Follows slaveBroker sampleEventCrates message v sampleMasterAfter.graph ↔
        ¬ sampleRequest.ChangesSchemaType sampleEventCrates sampleGraph) :=
  replicated_iff rfl fresh_sampleRequest run_sampleRequest

/-- The Master makes the schema 1 a time series; the Slave keeps it a document storage. -/
theorem not_replicated_schema_type :
    run sampleBroker (handle sampleEventCrates sampleRequest) sampleMaster =
        (.ok .empty, sampleMasterAfter) ∧
      sampleMasterAfter.sent = [sampleEvent] ∧
      sampleEventCrates.parseEvent sampleEventText = .ok sampleEvent ∧
      ¬ Follows sampleBroker sampleEventCrates ⟨.ok (Uuid.toText 1), .ok sampleEventText⟩
        (sampleWorld sampleGraph 7 8) sampleMasterAfter.graph := by
  refine ⟨run_sampleRequest, rfl, parse_sampleEvent, ?_⟩
  have hslave : Fresh (sampleWorld sampleGraph 7 8).supply sampleGraph sampleEvent.given :=
    fresh_sampleGraph (by decide) (by decide) (by decide)
  obtain ⟨event, hsent, hperformed⟩ :=
    performed_of_run rfl fresh_sampleRequest run_sampleRequest
  have hsame : event = sampleEvent := (List.singleton_inj.mp hsent).symm
  rw [follows_iff (leaves_consumeMessage _ rfl parse_sampleEvent rfl hslave)]
  rw [hsame] at hperformed
  refine fun h => (slave_follows hperformed fresh_sampleRequest hslave).mp h ?_
  refine ⟨1, .timeseries, parse_sampleId, rfl, ?_⟩
  show (sampleGraph.vertexAt 1).bind _ ≠ _
  rw [vertexAt_sampleGraph]
  simp [Graph.propsOf, Props.setAll, Schema.intoProperties, sampleNewSchema, NewSchema.split,
    SchemaType.text]

end CommonDataLayer.SchemaRegistry
