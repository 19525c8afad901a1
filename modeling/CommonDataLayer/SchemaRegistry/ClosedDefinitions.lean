import CommonDataLayer.SchemaRegistry.Resolution
import CommonDataLayer.SchemaRegistry.WellTyped

/-! # Stored definitions are closed

`build_full_schema` puts stored definitions in the place of identifiers. What is stored was compiled,
so it is a boolean or an object and no identifier itself, and nothing is left to be resolved
(`closed_fullSchema`). Over every run from the empty database, resolving a stored definition again
makes no call and returns it as it is (`closedDefinitions`).
-/
namespace CommonDataLayer.SchemaRegistry
open Interaction PropertyGraph TransitionSystem
set_option autoImplicit false

/-- A boolean or an object. -/
def IsSchemaDocument : Value → Prop
  | .bool _ => True
  | .object _ => True
  | _ => False

/-- No value under `definitions` is the text of an identifier. -/
def NoIdentifiers (crates : Crates) (schema : Value) : Prop :=
  ∀ defs, definitionsOf schema = some defs →
    ∀ key text id, (key, .string text) ∈ defs → crates.parseUuid text ≠ .ok id

/-- There is nothing to resolve, and `definitions` is written back as it is. -/
structure Closed (crates : Crates) (schema : Value) : Prop where
  noIdentifiers : NoIdentifiers crates schema
  compiles : crates.compile schema = true
  settled : ∀ defs, definitionsOf schema = some defs → setDefinitions schema defs = schema

/-- Everything that is stored as a definition is closed. -/
def StoresClosed (crates : Crates) (g : Graph) : Prop :=
  ∀ d value, definitionAt g d = some value → Closed crates value

variable {crates : Crates} {g g' : Graph} {schema value : Value} {ids : List (String × Uuid)}
  {defs defs' : List (String × Value)}

/-! ## Resolving a closed definition -/

theorem mem_schemasToRetrieve {key : String} {id : Uuid} :
    (key, id) ∈ schemasToRetrieve crates defs ↔
      ∃ text, (key, .string text) ∈ defs ∧ crates.parseUuid text = .ok id := by
  have hparse (text : String) : (crates.parseUuid text).toOption = some id ↔
      crates.parseUuid text = .ok id := by
    cases crates.parseUuid text <;> simp [Except.toOption]
  rw [schemasToRetrieve, List.mem_filterMap]
  constructor
  · rintro ⟨⟨key', value⟩, hmem, hentry⟩
    obtain ⟨text, htext, hentry⟩ := Option.bind_eq_some_iff.mp hentry
    obtain ⟨id', hid, heq⟩ := Option.map_eq_some_iff.mp hentry
    cases heq
    cases value with
    | string other =>
      cases htext
      exact ⟨text, hmem, (hparse text).mp hid⟩
    | _ => cases htext
  · rintro ⟨text, hmem, hid⟩
    refine ⟨_, hmem, Option.bind_eq_some_iff.mpr ⟨text, rfl, ?_⟩⟩
    exact Option.map_eq_some_iff.mpr ⟨id, (hparse text).mpr hid, rfl⟩

theorem schemasToRetrieve_eq_nil (h : NoIdentifiers crates schema)
    (hdefs : definitionsOf schema = some defs) : schemasToRetrieve crates defs = [] := by
  refine List.eq_nil_iff_forall_not_mem.mpr fun entry hmem => ?_
  obtain ⟨text, hin, hid⟩ := mem_schemasToRetrieve.mp hmem
  exact h defs hdefs _ text _ hin hid

/-- A closed definition is returned as it is, without a call. -/
theorem Closed.buildFullSchema (h : Closed crates schema) :
    buildFullSchema crates schema = return ⟨schema⟩ := by
  unfold SchemaRegistry.buildFullSchema
  cases hdefs : definitionsOf schema with
  | none =>
    simp only [pure_bind, h.compiles, if_true]
  | some defs =>
    simp only [schemasToRetrieve_eq_nil h.noIdentifiers hdefs, retrieveSchemas, pure_bind,
      h.settled defs hdefs, h.compiles, if_true]

/-! ## What a resolved definition contains -/

/-- A member of the result was there before under another name, or it is a definition. -/
theorem mem_retrieve (h : retrieve crates g ids defs = .ok defs') {member : String × Value}
    (hmem : member ∈ defs') : (member ∈ defs ∧ member.1 ∉ ids.map (·.1)) ∨
      ∃ id, latestValue crates g id = .ok member.2 := by
  induction ids generalizing defs with
  | nil =>
    cases h
    exact .inl ⟨hmem, List.not_mem_nil⟩
  | cons entry ids ih =>
    rw [retrieve_cons] at h
    obtain ⟨value, hvalue, h⟩ := bind_eq_ok.mp h
    rcases ih h with ⟨hset, hnot⟩ | hretrieved
    · obtain ⟨old, hold, heq⟩ := List.mem_map.mp hset
      split at heq
      · subst heq
        exact .inr ⟨entry.2, hvalue⟩
      · subst heq
        refine .inl ⟨hold, fun hname => ?_⟩
        rcases List.mem_cons.mp hname with hname | hname
        · contradiction
        · exact hnot hname
    · exact .inr hretrieved

theorem lookup_setMember {key : String} {members : List (String × Value)}
    (h : members.lookup key ≠ none) (value : Value) :
    (setMember key value members).lookup key = some value := by
  induction members with
  | nil => exact absurd rfl h
  | cons member members ih =>
    obtain ⟨name, old⟩ := member
    rw [setMember, List.map_cons, ← setMember]
    by_cases hname : name = key
    · rw [if_pos hname, List.lookup_cons_self]
    · have hne : (key == name) = false := by simpa using Ne.symm hname
      rw [List.lookup_cons, hne] at h
      rw [if_neg hname, List.lookup_cons, hne]
      exact ih h

theorem definitionsOf_setDefinitions (h : definitionsOf schema = some defs)
    (defs' : List (String × Value)) : definitionsOf (setDefinitions schema defs') = some defs' := by
  cases schema with
  | object members =>
    have hlookup : members.lookup "definitions" ≠ none := by
      intro hnone
      rw [definitionsOf, hnone] at h
      cases h
    rw [setDefinitions, definitionsOf, lookup_setMember hlookup]
  | _ => cases h

/-- Writing the same definitions twice. -/
theorem setDefinitions_twice (schema : Value) (defs : List (String × Value)) :
    setDefinitions (setDefinitions schema defs) defs = setDefinitions schema defs := by
  cases schema with
  | object members =>
    rw [setDefinitions, setDefinitions, setMember, setMember, List.map_map]
    refine congrArg Value.object (List.map_congr_left fun member _ => ?_)
    by_cases hname : member.1 = "definitions" <;> simp [hname]
  | _ => rfl

/-- What is put in the place of an identifier is no text. -/
theorem ne_string (hdocument : ∀ schema, crates.compile schema = true → IsSchemaDocument schema)
    (hstored : StoresClosed crates g) {id : Uuid} (h : latestValue crates g id = .ok value)
    (text : String) : value ≠ .string text := by
  obtain ⟨found, x, -, -, hvalue⟩ := latestValue_eq_ok.mp h
  have hcompiles := hdocument value (hstored x.2 value hvalue).compiles
  rintro rfl
  exact hcompiles

/-- **A resolved definition is closed**, where the stored ones are. -/
theorem closed_fullSchema (hdocument : ∀ schema, crates.compile schema = true → IsSchemaDocument schema)
    (hstored : StoresClosed crates g) {full : Definition} (h : fullSchema crates g schema = .ok full) :
    Closed crates full.definition := by
  obtain ⟨resolved, hresolved, hcompile⟩ := bind_eq_ok.mp h
  have hcompiles : crates.compile resolved = true ∧ full.definition = resolved := by
    split at hcompile
    · next hcompiles =>
      cases hcompile
      exact ⟨hcompiles, rfl⟩
    · cases hcompile
  obtain ⟨hcompiles, hfull⟩ := hcompiles
  rw [hfull]
  unfold resolve at hresolved
  cases hdefs : definitionsOf schema with
  | none =>
    rw [hdefs, Except.ok.injEq] at hresolved
    subst hresolved
    refine ⟨fun defs hsome => ?_, hcompiles, fun defs hsome => ?_⟩
    all_goals
      rw [hdefs] at hsome
      cases hsome
  | some defs =>
    rw [hdefs] at hresolved
    obtain ⟨defs', hretrieve, hset⟩ := bind_eq_ok.mp hresolved
    obtain rfl := Except.ok.inj hset
    refine ⟨fun other hother key text id hmem hid => ?_, hcompiles, fun other hother => ?_⟩
    all_goals
      rw [definitionsOf_setDefinitions hdefs, Option.some.injEq] at hother
      subst hother
    · rcases mem_retrieve hretrieve hmem with ⟨hold, hnot⟩ | ⟨schemaId, hlatest⟩
      · have hretrieved := mem_schemasToRetrieve.mpr ⟨text, hold, hid⟩
        exact hnot (List.mem_map_of_mem (f := (·.1)) hretrieved)
      · exact ne_string hdocument hstored hlatest text rfl
    · exact setDefinitions_twice schema defs'

/-! ## Every run -/

theorem definitionAt_setVertexProperties {id : Uuid} {values : List (PropName × Value)}
    (h : .definition ∉ values.map (·.1)) (d : Uuid) :
    definitionAt (g.setVertexProperties id values) d = definitionAt g d :=
  Graph.propertyAt_setVertexProperties g fun _ => h

theorem definitionAt_updateSchemaProperty {name : PropName} (hname : name ≠ .definition) (id : Uuid)
    (value : String) (d : Uuid) : definitionAt
      ((((updateSchemaPropertyOutcome g name id value).map (·.2)).toOption).getD g) d =
        definitionAt g d := by
  cases houtcome : updateSchemaPropertyOutcome g name id value with
  | error e => rfl
  | ok r =>
    obtain ⟨-, rfl⟩ := updateSchemaPropertyOutcome_eq_ok.mp houtcome
    have hvalues : PropName.definition ∉ [(name, Value.string value)].map (·.1) := by
      simpa using hname.symm
    exact definitionAt_setVertexProperties hvalues d

theorem ViewUpdate.definition_notMem (view : ViewUpdate) :
    PropName.definition ∉ view.properties.map (·.1) := by
  intro hmem
  obtain ⟨property, hproperty, heq⟩ := List.mem_map.mp hmem
  have hown := view.properties_own property hproperty
  rw [heq] at hown
  exact absurd hown (by decide)

theorem definitionAt_withDefinition {id d i : Uuid} {version : Version} {definition : Definition}
    (hd : g.vertexAt d = none)
    (h : definitionAt (withDefinition crates g id d version definition) i = some value) :
    definitionAt g i = some value ∨ definition = ⟨value⟩ := by
  rw [definitionAt, vertexAt_withDefinition hd] at h
  split at h
  · obtain rfl : definition.definition = value := Option.some.inj h
    exact .inr rfl
  · exact .inl h

theorem definitionAt_withSchema {id d i : Uuid} {schema : Schema} {definition : Definition}
    (hid : g.vertexAt id = none) (hd : g.vertexAt d = none) (hne : id ≠ d)
    (h : definitionAt (withSchema crates g id d schema definition) i = some value) :
    definitionAt g i = some value ∨ definition = ⟨value⟩ := by
  rw [definitionAt, vertexAt_withSchema hid hd hne] at h
  split at h
  · obtain rfl : definition.definition = value := Option.some.inj h
    exact .inr rfl
  · split at h
    · cases h
    · exact .inl h

theorem definitionAt_withView {schemaId viewId i : Uuid} {view : View}
    (hview : g.vertexAt viewId = none)
    (h : definitionAt (withView g schemaId viewId view) i = some value) :
    definitionAt g i = some value := by
  rw [definitionAt, vertexAt_withView hview] at h
  split at h
  · cases h
  · exact h

/-- A definition that an operation leaves was there before, or the operation has resolved it. -/
theorem definitionAt_graphAfter {draw : ℕ → Uuid} {op : Operation} (hfresh : Fresh draw g op.given)
    {d : Uuid} (h : definitionAt (graphAfter crates draw g op) d = some value) :
    definitionAt g d = some value ∨ ∃ schema, fullSchema crates g schema = .ok ⟨value⟩ := by
  unfold graphAfter at h
  cases op with
  | addSchema schema newId =>
    rw [Operation.outcome] at h
    cases houtcome : addSchemaOutcome crates draw g schema newId with
    | error e =>
      rw [houtcome] at h
      exact .inl h
    | ok r =>
      obtain ⟨full, hfull, hnew, rfl⟩ := addSchemaOutcome_eq_ok.mp houtcome
      obtain ⟨hd, hne⟩ := firstDefinitionId_free hfresh
      rw [houtcome] at h
      rcases definitionAt_withSchema (newVertexId_free hfresh hnew) hd hne h with hbefore | hvalue
      · exact .inl hbefore
      · exact .inr ⟨schema.definition, hvalue ▸ hfull⟩
  | addNewVersionOfSchema id schema =>
    rw [Operation.outcome] at h
    cases houtcome : addNewVersionOutcome crates draw g id schema with
    | error e =>
      rw [houtcome] at h
      exact .inl h
    | ok r =>
      obtain ⟨-, -, full, hfull, rfl⟩ := addNewVersionOutcome_eq_ok.mp houtcome
      rw [houtcome] at h
      rcases definitionAt_withDefinition (hfresh.free 0 (by omega)) h with hbefore | hvalue
      · exact .inl hbefore
      · exact .inr ⟨schema.definition, hvalue ▸ hfull⟩
  | addViewToSchema schemaId view viewId =>
    rw [Operation.outcome] at h
    cases houtcome : addViewOutcome crates draw g schemaId view viewId with
    | error e =>
      rw [houtcome] at h
      exact .inl h
    | ok r =>
      obtain ⟨-, -, hnew, rfl⟩ := addViewOutcome_eq_ok.mp houtcome
      rw [houtcome] at h
      exact .inl (definitionAt_withView (newVertexId_free hfresh hnew) h)
  | updateSchemaName id newName =>
    exact .inl ((definitionAt_updateSchemaProperty (by decide) id newName d).symm.trans h)
  | updateSchemaTopic id newTopic =>
    exact .inl ((definitionAt_updateSchemaProperty (by decide) id newTopic d).symm.trans h)
  | updateSchemaQueryAddress id newQueryAddress =>
    exact .inl ((definitionAt_updateSchemaProperty (by decide) id newQueryAddress d).symm.trans h)
  | updateSchemaType id newSchemaType =>
    exact .inl ((definitionAt_updateSchemaProperty (by decide) id newSchemaType.text d).symm.trans h)
  | updateView id view =>
    rw [Operation.outcome] at h
    cases houtcome : updateViewOutcome crates g id view with
    | error e =>
      rw [houtcome] at h
      exact .inl h
    | ok r =>
      obtain ⟨-, -, hr⟩ := updateViewOutcome_eq_ok.mp houtcome
      rw [houtcome] at h
      have hafter : definitionAt r.2 d = some value := h
      rw [hr, definitionAt_setVertexProperties view.definition_notMem] at hafter
      exact .inl hafter

theorem storesClosed_empty : StoresClosed crates Graph.empty := by
  intro d value h
  cases h

/-- One operation keeps what is stored closed. -/
theorem storesClosed_step {broker : Broker}
    (hdocument : ∀ schema, crates.compile schema = true → IsSchemaDocument schema)
    {op : Operation} (h : StoresClosed crates g) (next : Performs crates broker g op g') :
    StoresClosed crates g' := by
  obtain ⟨w, -, hfresh, rfl⟩ := performs_iff.mp next
  intro d value hvalue
  rcases definitionAt_graphAfter hfresh hvalue with hbefore | ⟨schema, hfull⟩
  · exact h d value hbefore
  · exact closed_fullSchema hdocument h hfull

/-- Every stored definition is closed, in every state of a run. -/
theorem closedDefinitions {broker : Broker}
    (hdocument : ∀ schema, crates.compile schema = true → IsSchemaDocument schema)
    {ts : List (Transition Graph Operation)} (hrun : Run (Performs crates broker) Graph.empty ts g) :
    ∀ g' ∈ states Graph.empty ts, ∀ d value, definitionAt g' d = some value →
      NoIdentifiers crates value ∧ buildFullSchema crates value = return ⟨value⟩ := by
  have hall : ∀ g' ∈ states Graph.empty ts, StoresClosed crates g' :=
    hrun.invariant_states storesClosed_empty
      (fun _ _ _ h next (_ : True) => storesClosed_step hdocument h next) fun _ _ => trivial
  intro g' hg' d value hvalue
  have hclosed := hall g' hg' d value hvalue
  exact ⟨hclosed.noIdentifiers, hclosed.buildFullSchema⟩

theorem document_of_sampleCrates (schema : Value) (h : sampleCrates.compile schema = true) :
    IsSchemaDocument schema := by
  cases schema with
  | bool b => exact trivial
  | object members => exact trivial
  | _ => cases h

/-- The stored definition of the second schema, which referred to the first one. -/
theorem closedDefinitions_resolved : ∃ ts g, Run (Performs sampleCrates sampleBroker) Graph.empty ts g ∧
    ts.map (·.label) = sampleOperations ∧ definitionAt g 103 = some sampleResolved ∧
    NoIdentifiers sampleCrates sampleResolved ∧
    buildFullSchema sampleCrates sampleResolved = return ⟨sampleResolved⟩ := by
  obtain ⟨ts, g, hrun, hlabels, -, hdefinition⟩ := run_sampleOperations
  exact ⟨ts, g, hrun, hlabels, hdefinition,
    closedDefinitions document_of_sampleCrates hrun g hrun.last_mem_states 103 _ hdefinition⟩

end CommonDataLayer.SchemaRegistry
