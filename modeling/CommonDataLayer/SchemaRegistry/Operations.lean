import CommonDataLayer.SchemaRegistry.DbMeaning

/-! # The operations of the schema database

Each operation that writes has an outcome, which is an error or what it returns and the graph it
leaves, as a function of the graph and of the identifiers it draws. `run_perform`: this is what its
program does, and with an error the graph stays as it was.

The identifiers that the datastore draws are new (`Fresh`).
-/
namespace CommonDataLayer.SchemaRegistry
open Interaction PropertyGraph
set_option autoImplicit false

/-- The next two identifiers are no vertices, and they are not among those given. -/
structure Fresh (draw : ℕ → Uuid) (g : Graph) (given : List Uuid) : Prop where
  free : ∀ n < 2, g.vertexAt (draw n) = none
  notGiven : ∀ n < 2, draw n ∉ given
  distinct : draw 0 ≠ draw 1

theorem Fresh.of_subset {draw : ℕ → Uuid} {g : Graph} {given given' : List Uuid}
    (h : Fresh draw g given) (hsubset : given' ⊆ given) : Fresh draw g given' where
  free := h.free
  notGiven n hn hmem := h.notGiven n hn (hsubset hmem)
  distinct := h.distinct

/-! ## What an operation leaves -/

section Outcomes
variable (crates : Crates) (draw : ℕ → Uuid) (g : Graph)

def withDefinition (schemaId definitionId : Uuid) (version : Version) (definition : Definition) :
    Graph :=
  (g.putVertex definitionId .definition definition.intoProperties).putEdge
    (schemaDefinitionKey schemaId definitionId) (versionProperties crates version)

def withSchema (id definitionId : Uuid) (schema : Schema) (definition : Definition) : Graph :=
  withDefinition crates (g.putVertex id .schema schema.intoProperties) id definitionId
    (.new 1 0 0) definition

def withView (schemaId viewId : Uuid) (view : View) : Graph :=
  (g.putVertex viewId .view view.intoProperties).putEdge (schemaViewKey schemaId viewId) []

def addSchemaOutcome (schema : NewSchema) (newId : Option Uuid) :
    Except RegistryError (Uuid × Graph) := do
  let definition ← fullSchema crates g schema.split.2
  match newId with
  | some id =>
    if g.vertexAt id = none then
      .ok (id, withSchema crates g id (draw 0) schema.split.1 definition)
    else .error (.duplicatedUuid id)
  | none => .ok (draw 0, withSchema crates g (draw 0) (draw 1) schema.split.1 definition)

def updateSchemaPropertyOutcome (name : PropName) (id : Uuid) (value : String) :
    Except RegistryError (Unit × Graph) :=
  if g.vertexAt id = none then .error (.noSchemaWithId id)
  else .ok ((), g.setVertexProperty id name (.string value))

/-- A new version comes after all that are there. -/
def greatestVersion (id : Uuid) (version : Version) : Except RegistryError Unit := do
  match maxByVersion (← versions crates g id) with
  | some (maxVersion, _) =>
    if (compare maxVersion version).isGE then .error (.newVersionMustBeGreatest id maxVersion)
    else .ok ()
  | none => .ok ()

def addNewVersionOutcome (id : Uuid) (schema : NewSchemaVersion) :
    Except RegistryError (Unit × Graph) :=
  if g.vertexAt id = none then .error (.noSchemaWithId id)
  else do
    greatestVersion crates g id schema.version
    let definition ← fullSchema crates g schema.definition
    return ((), withDefinition crates g id (draw 0) schema.version definition)

def addViewOutcome (schemaId : Uuid) (view : View) (viewId : Option Uuid) :
    Except RegistryError (Uuid × Graph) :=
  if g.vertexAt schemaId = none then .error (.noSchemaWithId schemaId)
  else do
    (crates.parseJmespath view.jmespath).mapError .invalidView
    match viewId with
    | some id =>
      if g.vertexAt id = none then .ok (id, withView g schemaId id view)
      else .error (.duplicatedUuid id)
    | none => .ok (draw 0, withView g schemaId (draw 0) view)

/-- The properties that an update of a view sets. -/
def ViewUpdate.properties (view : ViewUpdate) : List (PropName × Value) :=
  (view.name.map fun name => (PropName.viewName, Value.string name)).toList ++
    (view.jmespath.map fun jmespath => (PropName.jmespath, Value.string jmespath)).toList

def updateViewOutcome (id : Uuid) (view : ViewUpdate) : Except RegistryError (View × Graph) := do
  let oldView ← viewAt g id
  match view.jmespath with
  | some jmespath => (crates.parseJmespath jmespath).mapError .invalidView
  | none => pure ()
  return (oldView, g.setVertexProperties id view.properties)

/-! ## What is in the graph afterwards -/

variable {crates draw g}

theorem eq_schemaDefinitionKey {id : Uuid} {key : EdgeKey} (hid : key.outboundId = id)
    (ht : key.t = .schemaDefinition) : key = schemaDefinitionKey id key.inboundId := by
  rw [← hid, schemaDefinitionKey, ← ht]

theorem vertexAt_withDefinition {id d : Uuid} (hd : g.vertexAt d = none) (version : Version)
    (definition : Definition) (i : Uuid) :
    (withDefinition crates g id d version definition).vertexAt i =
      if d = i then some ⟨.definition, Graph.propsOf definition.intoProperties⟩
      else g.vertexAt i := by
  rw [withDefinition, Graph.vertexAt_putEdge, Graph.vertexAt_putVertex _ hd]

theorem edgeAt_withDefinition {id d : Uuid} (hid : g.vertexAt id ≠ none) (hd : g.vertexAt d = none)
    (version : Version) (definition : Definition) (key : EdgeKey) :
    (withDefinition crates g id d version definition).edgeAt key =
      if schemaDefinitionKey id d = key then some (Graph.propsOf (versionProperties crates version))
      else g.edgeAt key := by
  have hvertex := Graph.vertexAt_putVertex g hd
  rw [withDefinition, Graph.edgeAt_putEdge, Graph.edgeAt_putVertex]
  · rw [hvertex]
    split
    · exact Option.some_ne_none _
    · exact hid
  · rw [hvertex]
    exact (if_pos rfl).trans_ne (Option.some_ne_none _)
  · rw [Graph.edgeAt_putVertex]
    exact Graph.edgeAt_eq_none (Or.inr hd)

theorem vertexAt_withSchema {id d : Uuid} (hid : g.vertexAt id = none) (hd : g.vertexAt d = none)
    (hne : id ≠ d) (schema : Schema) (definition : Definition) (i : Uuid) :
    (withSchema crates g id d schema definition).vertexAt i =
      if d = i then some ⟨.definition, Graph.propsOf definition.intoProperties⟩
      else if id = i then some ⟨.schema, Graph.propsOf schema.intoProperties⟩
      else g.vertexAt i := by
  have hvertex := Graph.vertexAt_putVertex g hid
  rw [withSchema, vertexAt_withDefinition, hvertex]
  rw [hvertex, if_neg hne, hd]

theorem edgeAt_withSchema {id d : Uuid} (hid : g.vertexAt id = none) (hd : g.vertexAt d = none)
    (hne : id ≠ d) (schema : Schema) (definition : Definition) (key : EdgeKey) :
    (withSchema crates g id d schema definition).edgeAt key =
      if schemaDefinitionKey id d = key then
        some (Graph.propsOf (versionProperties crates (.new 1 0 0)))
      else g.edgeAt key := by
  have hvertex := Graph.vertexAt_putVertex g hid
  rw [withSchema, edgeAt_withDefinition, Graph.edgeAt_putVertex]
  · rw [hvertex, if_pos rfl]
    exact Option.some_ne_none _
  · rw [hvertex, if_neg hne, hd]

theorem vertexAt_withView {schemaId viewId : Uuid} (hview : g.vertexAt viewId = none) (view : View)
    (i : Uuid) : (withView g schemaId viewId view).vertexAt i =
      if viewId = i then some ⟨.view, Graph.propsOf view.intoProperties⟩ else g.vertexAt i := by
  rw [withView, Graph.vertexAt_putEdge, Graph.vertexAt_putVertex _ hview]

theorem edgeAt_withView {schemaId viewId : Uuid} (hschema : g.vertexAt schemaId ≠ none)
    (hview : g.vertexAt viewId = none) (view : View) (key : EdgeKey) :
    (withView g schemaId viewId view).edgeAt key =
      if schemaViewKey schemaId viewId = key then some (Graph.propsOf []) else g.edgeAt key := by
  have hvertex := Graph.vertexAt_putVertex g hview
  rw [withView, Graph.edgeAt_putEdge, Graph.edgeAt_putVertex]
  · rw [hvertex]
    split
    · exact Option.some_ne_none _
    · exact hschema
  · rw [hvertex]
    exact (if_pos rfl).trans_ne (Option.some_ne_none _)
  · rw [Graph.edgeAt_putVertex]
    exact Graph.edgeAt_eq_none (Or.inr hview)

/-! ## When they succeed -/

/-- The identifier of a new vertex. -/
def newVertexId (draw : ℕ → Uuid) (given : Option Uuid) : Uuid := given.getD (draw 0)

/-- The identifier of the definition vertex that comes with a new schema. -/
def firstDefinitionId (draw : ℕ → Uuid) (newId : Option Uuid) : Uuid :=
  if newId.isSome then draw 0 else draw 1

theorem newVertexId_free {ids : List Uuid} {given : Option Uuid} (hfresh : Fresh draw g ids)
    (hnew : ∀ id ∈ given, g.vertexAt id = none) : g.vertexAt (newVertexId draw given) = none := by
  cases given with
  | none => exact hfresh.free 0 (by omega)
  | some id => exact hnew id rfl

theorem firstDefinitionId_free {given : Option Uuid} (hfresh : Fresh draw g given.toList) :
    g.vertexAt (firstDefinitionId draw given) = none ∧
      newVertexId draw given ≠ firstDefinitionId draw given := by
  cases given with
  | none => exact ⟨hfresh.free 1 (by omega), hfresh.distinct⟩
  | some id =>
    refine ⟨hfresh.free 0 (by omega), fun heq => hfresh.notGiven 0 (by omega) ?_⟩
    have heq : id = draw 0 := heq
    rw [← heq]
    exact List.mem_singleton_self id

theorem addSchemaOutcome_eq_ok {schema : NewSchema} {newId : Option Uuid} {r : Uuid × Graph} :
    addSchemaOutcome crates draw g schema newId = .ok r ↔
      ∃ definition, fullSchema crates g schema.definition = .ok definition ∧
        (∀ id ∈ newId, g.vertexAt id = none) ∧ r = (newVertexId draw newId,
          withSchema crates g (newVertexId draw newId) (firstDefinitionId draw newId)
            schema.split.1 definition) := by
  unfold addSchemaOutcome
  rw [bind_eq_ok]
  refine exists_congr fun definition => and_congr_right fun _ => ?_
  cases newId with
  | none => simp [newVertexId, firstDefinitionId, @eq_comm _ r]
  | some id =>
    by_cases h : g.vertexAt id = none <;>
      simp [h, newVertexId, firstDefinitionId, @eq_comm _ r]

theorem updateSchemaPropertyOutcome_eq_ok {name : PropName} {id : Uuid} {value : String}
    {r : Unit × Graph} : updateSchemaPropertyOutcome g name id value = .ok r ↔
      g.vertexAt id ≠ none ∧ r = ((), g.setVertexProperty id name (.string value)) := by
  unfold updateSchemaPropertyOutcome
  by_cases h : g.vertexAt id = none <;> simp [h, @eq_comm _ r]

theorem addNewVersionOutcome_eq_ok {id : Uuid} {schema : NewSchemaVersion} {r : Unit × Graph} :
    addNewVersionOutcome crates draw g id schema = .ok r ↔ g.vertexAt id ≠ none ∧
      greatestVersion crates g id schema.version = .ok () ∧
      ∃ definition, fullSchema crates g schema.definition = .ok definition ∧
        r = ((), withDefinition crates g id (draw 0) schema.version definition) := by
  unfold addNewVersionOutcome
  by_cases h : g.vertexAt id = none
  · simp [h]
  · rw [if_neg h]
    cases greatestVersion crates g id schema.version with
    | error e => simp
    | ok _ => cases fullSchema crates g schema.definition <;> simp [h, @eq_comm _ r, pure, Except.pure]

theorem addViewOutcome_eq_ok {schemaId : Uuid} {view : View} {viewId : Option Uuid}
    {r : Uuid × Graph} : addViewOutcome crates draw g schemaId view viewId = .ok r ↔
      g.vertexAt schemaId ≠ none ∧ crates.parseJmespath view.jmespath = .ok () ∧
      (∀ id ∈ viewId, g.vertexAt id = none) ∧
      r = (newVertexId draw viewId, withView g schemaId (newVertexId draw viewId) view) := by
  unfold addViewOutcome
  by_cases h : g.vertexAt schemaId = none
  · simp [h]
  · rw [if_neg h]
    cases crates.parseJmespath view.jmespath with
    | error e => simp [Except.mapError]
    | ok _ =>
      simp only [Except.mapError, ok_bind, ne_eq, h, not_false_eq_true, true_and]
      cases viewId with
      | none => simp [newVertexId, @eq_comm _ r]
      | some id => by_cases hid : g.vertexAt id = none <;> simp [hid, newVertexId, @eq_comm _ r]

theorem updateViewOutcome_eq_ok {id : Uuid} {view : ViewUpdate} {r : View × Graph} :
    updateViewOutcome crates g id view = .ok r ↔
      viewAt g id = .ok r.1 ∧ (∀ jmespath ∈ view.jmespath, crates.parseJmespath jmespath = .ok ()) ∧
      r.2 = g.setVertexProperties id view.properties := by
  have hvalue (oldView : View) : (oldView, g.setVertexProperties id view.properties) = r ↔
      oldView = r.1 ∧ r.2 = g.setVertexProperties id view.properties := by
    rw [Prod.ext_iff, eq_comm (a := r.2)]
  unfold updateViewOutcome
  cases viewAt g id with
  | error e => simp
  | ok oldView =>
    rw [ok_bind, Except.ok.injEq]
    cases view.jmespath with
    | none => simpa [pure, Except.pure] using hvalue oldView
    | some jmespath =>
      dsimp only
      cases hparse : crates.parseJmespath jmespath with
      | error e => simp [Except.mapError, hparse]
      | ok _ => simpa [Except.mapError, hparse] using hvalue oldView

end Outcomes

/-! ## The programs -/

section Programs
variable {broker : Broker} {crates : Crates} {α β : Type} (w : World)

/-- The world after an operation that drew some identifiers. -/
def World.settle (drawn : ℕ) : Except RegistryError (α × Graph) → Except RegistryError α × World
  | .ok (a, g) => (.ok a, { w with graph := g, supply := fun n => w.supply (n + drawn) })
  | .error e => (.error e, w)

theorem run_createDefinition {definition : Definition}
    (hfree : w.graph.vertexAt (w.supply 0) = none) (schemaId : Uuid) (version : Version) (a : α) :
    run broker (do
      let id ← createVertexWithProperties definition.vertex none
      setEdgeProperties (schemaDefinitionKey schemaId id) (versionProperties crates version)
      return a) w =
    (.ok a, { w with graph := withDefinition crates w.graph schemaId (w.supply 0) version definition,
                     supply := fun n => w.supply (n + 1) }) := by
  rw [run_bind_ok (run_createVertexWithProperties_none w definition.vertex hfree),
    run_bind_ok (run_setEdgeProperties _ _ _)]
  rfl

theorem run_addSchema {schema : NewSchema} {newId : Option Uuid}
    (hfresh : Fresh w.supply w.graph newId.toList) :
    run broker (addSchema crates schema newId) w = w.settle (if newId.isSome then 1 else 2)
      (addSchemaOutcome crates w.supply w.graph schema newId) := by
  unfold addSchema addSchemaOutcome
  dsimp only
  rw [run_bind, run_buildFullSchema]
  cases fullSchema crates w.graph schema.split.2 with
  | error e => rfl
  | ok definition =>
    dsimp only
    cases newId with
    | some id =>
      rw [run_bind, run_createVertexWithProperties_some]
      show _ = w.settle _ (if w.graph.vertexAt id = none then _ else _)
      by_cases hid : w.graph.vertexAt id = none
      · rw [if_pos hid, if_pos hid]
        have hne : id ≠ w.supply 0 := fun h =>
          hfresh.notGiven 0 (by omega) (by rw [h]; exact List.mem_singleton_self _)
        apply run_createDefinition
        show (Graph.putVertex _ id _ _).vertexAt (w.supply 0) = none
        rw [Graph.vertexAt_putVertex _ hid, if_neg hne]
        exact hfresh.free 0 (by omega)
      · rw [if_neg hid, if_neg hid]
        rfl
    | none =>
      rw [run_bind_ok (run_createVertexWithProperties_none w _ (hfresh.free 0 (by omega)))]
      have hfree : (w.graph.putVertex (w.supply 0) .schema schema.split.1.intoProperties).vertexAt
          (w.supply 1) = none := by
        rw [Graph.vertexAt_putVertex _ (hfresh.free 0 (by omega)), if_neg hfresh.distinct]
        exact hfresh.free 1 (by omega)
      apply run_createDefinition _ hfree

theorem run_updateSchemaProperty (name : PropName) (id : Uuid) (value : String) :
    run broker (updateSchemaProperty name id value) w =
      w.settle 0 (updateSchemaPropertyOutcome w.graph name id value) := by
  unfold updateSchemaProperty updateSchemaPropertyOutcome
  rw [run_bind, run_ensureSchemaExists]
  by_cases h : w.graph.vertexAt id = none
  · rw [if_pos h, if_pos h]
    rfl
  · rw [if_neg h, if_neg h]
    exact run_setVertexProperties w id _

theorem run_addNewVersionOfSchema {id : Uuid} {schema : NewSchemaVersion}
    (hfresh : Fresh w.supply w.graph [id]) :
    run broker (addNewVersionOfSchema crates id schema) w =
      w.settle 1 (addNewVersionOutcome crates w.supply w.graph id schema) := by
  unfold addNewVersionOfSchema addNewVersionOutcome
  rw [run_bind, run_ensureSchemaExists]
  by_cases h : w.graph.vertexAt id = none
  · rw [if_pos h, if_pos h]
    rfl
  rw [if_neg h, if_neg h]
  dsimp only
  rw [run_bind, run_getSchemaVersions]
  have hcreate : run broker (do
      let definition ← buildFullSchema crates schema.definition
      let definitionId ← createVertexWithProperties definition.vertex none
      setEdgeProperties (schemaDefinitionKey id definitionId)
        (versionProperties crates schema.version)) w =
      w.settle 1 (do
        let definition ← fullSchema crates w.graph schema.definition
        return ((), withDefinition crates w.graph id (w.supply 0) schema.version definition)) := by
    rw [run_bind, run_buildFullSchema]
    cases fullSchema crates w.graph schema.definition with
    | error e => rfl
    | ok definition =>
      dsimp only
      rw [run_bind_ok (run_createVertexWithProperties_none w _ (hfresh.free 0 (by omega)))]
      exact run_setEdgeProperties _ _ _
  unfold greatestVersion
  cases versions crates w.graph id with
  | error e => rfl
  | ok found =>
    simp only [ok_bind]
    cases maxByVersion found with
    | none => exact hcreate
    | some version =>
      dsimp only
      split
      · rfl
      · exact hcreate

theorem run_validateView (jmespath : String) : run broker (validateView crates jmespath) w =
    ((crates.parseJmespath jmespath).mapError .invalidView, w) := rfl

theorem run_addViewToSchema {schemaId : Uuid} {view : View} {viewId : Option Uuid}
    (hfresh : Fresh w.supply w.graph (schemaId :: viewId.toList)) :
    run broker (addViewToSchema crates schemaId view viewId) w =
      w.settle (if viewId.isSome then 0 else 1)
        (addViewOutcome crates w.supply w.graph schemaId view viewId) := by
  unfold addViewToSchema addViewOutcome
  rw [run_bind, run_ensureSchemaExists]
  by_cases h : w.graph.vertexAt schemaId = none
  · rw [if_pos h, if_pos h]
    rfl
  rw [if_neg h, if_neg h]
  dsimp only
  rw [run_bind, run_validateView]
  cases crates.parseJmespath view.jmespath with
  | error e => rfl
  | ok _ =>
    dsimp only [Except.mapError]
    cases viewId with
    | some id =>
      rw [run_bind, run_createVertexWithProperties_some]
      show _ = w.settle _ (if w.graph.vertexAt id = none then _ else _)
      by_cases hid : w.graph.vertexAt id = none
      · rw [if_pos hid, if_pos hid]
        dsimp only
        rw [run_bind_ok (run_setEdgeProperties _ _ _)]
        rfl
      · rw [if_neg hid, if_neg hid]
        rfl
    | none =>
      rw [run_bind_ok (run_createVertexWithProperties_none w _ (hfresh.free 0 (by omega))),
        run_bind_ok (run_setEdgeProperties _ _ _)]
      rfl

theorem run_updateView (id : Uuid) (view : ViewUpdate) :
    run broker (updateView crates id view) w =
      w.settle 0 (updateViewOutcome crates w.graph id view) := by
  unfold updateView updateViewOutcome ViewUpdate.properties
  rw [run_bind, run_getView]
  cases viewAt w.graph id with
  | error e => rfl
  | ok oldView =>
    obtain ⟨name, jmespath⟩ := view
    cases jmespath with
    | none => cases name <;> rfl
    | some jmespath =>
      dsimp only
      rw [run_bind, run_validateView]
      cases crates.parseJmespath jmespath with
      | error e => rfl
      | ok _ => cases name <;> rfl

end Programs

/-! ## All operations -/

inductive Operation where
  | addSchema (schema : NewSchema) (newId : Option Uuid)
  | addNewVersionOfSchema (id : Uuid) (schema : NewSchemaVersion)
  | addViewToSchema (schemaId : Uuid) (view : View) (viewId : Option Uuid)
  | updateSchemaName (id : Uuid) (newName : String)
  | updateSchemaTopic (id : Uuid) (newTopic : String)
  | updateSchemaQueryAddress (id : Uuid) (newQueryAddress : String)
  | updateSchemaType (id : Uuid) (newSchemaType : SchemaType)
  | updateView (id : Uuid) (view : ViewUpdate)

namespace Operation
variable (crates : Crates)

/-- Runs a program for its effect. -/
def discard {α : Type} (x : Registry α) : Registry Unit := do
  let _ ← x
  return ()

def perform : Operation → Registry Unit
  | addSchema schema newId => discard (SchemaRegistry.addSchema crates schema newId)
  | addNewVersionOfSchema id schema => SchemaRegistry.addNewVersionOfSchema crates id schema
  | addViewToSchema schemaId view viewId =>
    discard (SchemaRegistry.addViewToSchema crates schemaId view viewId)
  | updateSchemaName id newName => SchemaRegistry.updateSchemaName id newName
  | updateSchemaTopic id newTopic => SchemaRegistry.updateSchemaTopic id newTopic
  | updateSchemaQueryAddress id newQueryAddress =>
    SchemaRegistry.updateSchemaQueryAddress id newQueryAddress
  | updateSchemaType id newSchemaType => SchemaRegistry.updateSchemaType id newSchemaType
  | updateView id view => discard (SchemaRegistry.updateView crates id view)

/-- The identifiers that the caller gives. -/
def given : Operation → List Uuid
  | addSchema _ newId => newId.toList
  | addNewVersionOfSchema id _ => [id]
  | addViewToSchema schemaId _ viewId => schemaId :: viewId.toList
  | updateSchemaName id _ => [id]
  | updateSchemaTopic id _ => [id]
  | updateSchemaQueryAddress id _ => [id]
  | updateSchemaType id _ => [id]
  | updateView id _ => [id]

/-- The graph that the operation leaves. -/
def outcome (draw : ℕ → Uuid) (g : Graph) : Operation → Except RegistryError Graph
  | addSchema schema newId => (addSchemaOutcome crates draw g schema newId).map (·.2)
  | addNewVersionOfSchema id schema => (addNewVersionOutcome crates draw g id schema).map (·.2)
  | addViewToSchema schemaId view viewId =>
    (addViewOutcome crates draw g schemaId view viewId).map (·.2)
  | updateSchemaName id newName =>
    (updateSchemaPropertyOutcome g .schemaName id newName).map (·.2)
  | updateSchemaTopic id newTopic =>
    (updateSchemaPropertyOutcome g .schemaTopicName id newTopic).map (·.2)
  | updateSchemaQueryAddress id newQueryAddress =>
    (updateSchemaPropertyOutcome g .schemaQueryAddress id newQueryAddress).map (·.2)
  | updateSchemaType id newSchemaType =>
    (updateSchemaPropertyOutcome g .schemaType id newSchemaType.text).map (·.2)
  | updateView id view => (updateViewOutcome crates g id view).map (·.2)

end Operation

section Perform
variable {broker : Broker} {crates : Crates} {α β : Type} (w : World)

theorem settle_graph (drawn : ℕ) (r : Except RegistryError (α × Graph)) :
    (w.settle drawn r).2.graph = ((r.map (·.2)).toOption).getD w.graph := by
  cases r <;> rfl

theorem run_discard (x : Registry α) :
    (run broker (Operation.discard x) w).2 = (run broker x w).2 := by
  rw [Operation.discard, run_bind]
  split <;> simp only [run_pure, *]

/-- Each operation leaves its outcome, or with an error the graph as it was. -/
theorem run_perform {op : Operation} (hfresh : Fresh w.supply w.graph op.given) :
    (run broker (op.perform crates) w).2.graph =
      ((op.outcome crates w.supply w.graph).toOption).getD w.graph := by
  cases op with
  | addSchema schema newId =>
    rw [Operation.perform, run_discard, run_addSchema w hfresh, settle_graph]
    rfl
  | addNewVersionOfSchema id schema =>
    rw [Operation.perform, run_addNewVersionOfSchema w hfresh, settle_graph]
    rfl
  | addViewToSchema schemaId view viewId =>
    rw [Operation.perform, run_discard, run_addViewToSchema w hfresh, settle_graph]
    rfl
  | updateSchemaName id newName =>
    rw [Operation.perform, updateSchemaName, run_updateSchemaProperty, settle_graph]
    rfl
  | updateSchemaTopic id newTopic =>
    rw [Operation.perform, updateSchemaTopic, run_updateSchemaProperty, settle_graph]
    rfl
  | updateSchemaQueryAddress id newQueryAddress =>
    rw [Operation.perform, updateSchemaQueryAddress, run_updateSchemaProperty, settle_graph]
    rfl
  | updateSchemaType id newSchemaType =>
    rw [Operation.perform, updateSchemaType, run_updateSchemaProperty, settle_graph]
    rfl
  | updateView id view =>
    rw [Operation.perform, run_discard, run_updateView, settle_graph]
    rfl

end Perform
/-! ## One schema

The registry with the schema 1 and its definition 2, for runs on concrete input. -/

def sampleWorld (g : Graph) (first second : Uuid) : World :=
  { graph := g, supply := fun n => if n = 0 then first else second, isMaster := true, sent := [],
    acks := 0 }

def sampleGraph : Graph :=
  withSchema sampleCrates .empty 1 2 sampleNewSchema.split.1 ⟨sampleNewSchema.definition⟩

theorem vertexAt_sampleGraph (id : Uuid) : sampleGraph.vertexAt id =
    if 2 = id then some ⟨.definition, Graph.propsOf (Definition.intoProperties ⟨.object []⟩)⟩
    else if 1 = id then some ⟨.schema, Graph.propsOf sampleNewSchema.split.1.intoProperties⟩
    else none := by
  rw [sampleGraph, withSchema, withDefinition, Graph.vertexAt_putEdge, Graph.vertexAt_putVertex,
    Graph.vertexAt_putVertex]
  · rfl
  · rfl
  · rw [Graph.vertexAt_putVertex _ rfl]
    rfl

/-! ## A few operations, one after the other -/

theorem fresh_iff {draw : ℕ → Uuid} {g : Graph} {given : List Uuid} : Fresh draw g given ↔
    (∀ n < 2, (g.vertexAt (draw n)).isNone = true ∧ given.contains (draw n) = false) ∧
      draw 0 ≠ draw 1 := by
  simp only [Option.isNone_iff_eq_none, List.contains_eq_mem, decide_eq_false_iff_not]
  exact ⟨fun h => ⟨fun n hn => ⟨h.free n hn, h.notGiven n hn⟩, h.distinct⟩,
    fun h => ⟨fun n hn => (h.1 n hn).1, fun n hn => (h.1 n hn).2, h.2⟩⟩

instance (draw : ℕ → Uuid) (g : Graph) (given : List Uuid) : Decidable (Fresh draw g given) :=
  decidable_of_iff' _ fresh_iff

/-- Draws identifiers that a small graph does not have. -/
def nextWorld (g : Graph) : World :=
  { graph := g, supply := fun n => BitVec.ofNat 128 (100 + g.vertices.size + n), isMaster := true, sent := [],
    acks := 0 }

/-- The operation, if the identifiers that it draws are new. -/
def performNext (g : Graph) (op : Operation) : Option Graph :=
  if Fresh (nextWorld g).supply g op.given then
    some (run sampleBroker (op.perform sampleCrates) (nextWorld g)).2.graph
  else none

def sampleView : View := { name := "view", jmespath := "name" }

/-- Its definition refers to the schema 1. -/
def sampleReferring : NewSchema :=
  { sampleNewSchema with
    name := "bills"
    definition := .object [("definitions", .object [("order", .string (Uuid.toText 1))])] }

/-- The second version of the schema 1 is greater, the third one is refused. -/
def sampleOperations : List Operation :=
  [.addSchema sampleNewSchema (some 1),
    .addNewVersionOfSchema 1 ⟨.new 2 0 0, .object [("title", .string "order")]⟩,
    .addNewVersionOfSchema 1 ⟨.new 1 0 0, .object [("title", .string "late")]⟩,
    .addSchema sampleReferring (some 3), .addViewToSchema 1 sampleView (some 5),
    .updateSchemaName 1 "invoices", .updateView 5 { name := some "names", jmespath := none }]

end CommonDataLayer.SchemaRegistry
