import CommonDataLayer.SchemaRegistry.Rpc

/-! # What a Slave makes of an event

`ReplicationEvent.outcome` is the graph that an event leaves, and `leaves_apply` says that the consumer
of a Slave computes it. `EqUpToDefinitions` compares two registries: their graphs are the same when
the vertices of type `DEFINITION`, whose identifiers every node draws for itself, are renamed.
-/
namespace CommonDataLayer.SchemaRegistry
open Interaction PropertyGraph
set_option autoImplicit false

/-- The graphs differ in the identifiers of `DEFINITION` vertices at most. -/
def EqUpToDefinitions (g g' : Graph) : Prop := ∃ σ : Equiv.Perm Uuid, Graph.Iso σ g g' ∧
  ∀ id vertex, g.vertexAt id = some vertex → vertex.t ≠ .definition → σ id = id

theorem EqUpToDefinitions.refl (g : Graph) : EqUpToDefinitions g g :=
  ⟨Equiv.refl Uuid, .refl g, fun _ _ _ _ => rfl⟩

/-! ## Metadata -/

/-- The property that an optional field sets. -/
def optionalProperty (name : PropName) (value : Option String) : List (PropName × Value) :=
  (value.map fun value => (name, Value.string value)).toList

@[simp] theorem optionalProperty_none (name : PropName) : optionalProperty name none = [] := rfl

@[simp] theorem optionalProperty_some (name : PropName) (value : String) :
    optionalProperty name (some value) = [(name, .string value)] := rfl

def metadataProperties (name topic queryAddress : Option String)
    (schemaType : Option SchemaType) : List (PropName × Value) :=
  optionalProperty .schemaName name ++ (optionalProperty .schemaTopicName topic ++
    (optionalProperty .schemaQueryAddress queryAddress ++
      optionalProperty .schemaType (schemaType.map SchemaType.text)))

def setProperties (g : Graph) (id : Uuid) (properties : List (PropName × Value)) :
    Except RegistryError Graph :=
  if properties ≠ [] ∧ g.vertexAt id = none then .error (.noSchemaWithId id)
  else .ok (g.setVertexProperties id properties)

theorem setProperties_append (g : Graph) (id : Uuid) (first second : List (PropName × Value)) :
    setProperties g id (first ++ second) =
      setProperties g id first >>= fun g => setProperties g id second := by
  unfold setProperties
  cases first with
  | nil => rfl
  | cons value first =>
    by_cases h : g.vertexAt id = none
    · simp [h]
    · have hkept : (g.setVertexProperties id (value :: first)).vertexAt id ≠ none := by
        rw [Graph.vertexAt_setVertexProperties, if_pos rfl, ne_eq, Option.map_eq_none_iff]
        exact h
      rw [if_neg fun h' => h h'.2, if_neg fun h' => h h'.2, ok_bind, if_neg fun h' => hkept h'.2]
      exact congrArg Except.ok List.foldl_append

theorem setProperties_eq_ok {g g' : Graph} {id : Uuid} {properties : List (PropName × Value)} :
    setProperties g id properties = .ok g' ↔ (properties ≠ [] → g.vertexAt id ≠ none) ∧
      g' = g.setVertexProperties id properties := by
  unfold setProperties
  by_cases h : properties ≠ [] ∧ g.vertexAt id = none
  · simp [h]
  · rw [if_neg h, Except.ok.injEq, eq_comm, iff_and_self]
    exact fun _ hne hid => h ⟨hne, hid⟩

/-! ## Events -/

namespace ReplicationEvent

/-- The identifiers that an event names. -/
def given : ReplicationEvent → List Uuid
  | addSchema _ id => [id]
  | addSchemaVersion id _ => [id]
  | updateSchemaMetadata id _ _ _ _ => [id]
  | addViewToSchema schemaId _ viewId => [schemaId, viewId]
  | updateView id _ => [id]

/-- The graph that an event leaves. -/
def outcome (crates : Crates) (draw : ℕ → Uuid) (g : Graph) :
    ReplicationEvent → Except RegistryError Graph
  | addSchema schema id => (addSchemaOutcome crates draw g schema (some id)).map (·.2)
  | addSchemaVersion id newVersion => (addNewVersionOutcome crates draw g id newVersion).map (·.2)
  | updateSchemaMetadata id name topic queryAddress schemaType =>
    setProperties g id (metadataProperties name topic queryAddress schemaType)
  | addViewToSchema schemaId view viewId =>
    (addViewOutcome crates draw g schemaId view (some viewId)).map (·.2)
  | updateView id view => (updateViewOutcome crates g id view).map (·.2)

end ReplicationEvent

section Run
variable {broker : Broker} {crates : Crates} {ε ε' α β : Type} (w : World)

/-- The result of a program that leaves a graph, or with an error the graph as it was. -/
structure Leaves (broker : Broker) (x : Fallible ε α) (convert : RegistryError → ε) (w : World)
    (outcome : Except RegistryError Graph) : Prop where
  result : (run broker x w).1.map (fun _ => ()) = (outcome.map fun _ => ()).mapError convert
  graph : (run broker x w).2.graph = outcome.toOption.getD w.graph

theorem leaves_settle {x : Registry α} {drawn : ℕ} {r : Except RegistryError (α × Graph)}
    (h : run broker x w = w.settle drawn r) (convert : RegistryError → ε) :
    Leaves broker (onError convert x) convert w (r.map (·.2)) := by
  constructor
  · rw [run_onError, h]
    cases r <;> rfl
  · rw [run_onError, h]
    cases r <;> rfl

theorem Leaves.discard {x : Fallible ε α} {convert : RegistryError → ε}
    {outcome : Except RegistryError Graph} (h : Leaves broker x convert w outcome) :
    Leaves broker (do let _ ← x) convert w outcome := by
  obtain ⟨hresult, hgraph⟩ := h
  cases hrun : run broker x w with
  | mk r w' =>
    rw [hrun] at hresult hgraph
    cases r with
    | ok a => exact ⟨by rw [run_bind_ok hrun]; exact hresult, by rw [run_bind_ok hrun]; exact hgraph⟩
    | error e =>
      exact ⟨by rw [run_bind_error hrun]; exact hresult, by rw [run_bind_error hrun]; exact hgraph⟩

/-- Programs that leave their graphs one after the other; the second one may fail only where the
first one has left the graph. -/
theorem Leaves.bind {x : Fallible ε Unit} {y : Fallible ε Unit} {convert : RegistryError → ε}
    {first : Except RegistryError Graph} {second : Graph → Except RegistryError Graph}
    (hx : Leaves broker x convert w first)
    (hy : ∀ w', first = .ok w'.graph → Leaves broker y convert w' (second w'.graph))
    (hsecond : ∀ g e, first = .ok g → second g = .error e → g = w.graph) :
    Leaves broker (x >>= fun _ => y) convert w (first >>= second) := by
  obtain ⟨hresult, hgraph⟩ := hx
  cases hrun : run broker x w with
  | mk r w' =>
    rw [hrun] at hresult hgraph
    cases first with
    | error e =>
      cases r with
      | ok a => cases hresult
      | error e' => exact ⟨by rw [run_bind_error hrun]; exact hresult,
          by rw [run_bind_error hrun]; exact hgraph⟩
    | ok g =>
      cases r with
      | error e' => cases hresult
      | ok a =>
        have hg : w'.graph = g := hgraph
        subst hg
        obtain ⟨hresult', hgraph'⟩ := hy w' rfl
        refine ⟨by rw [run_bind_ok hrun]; exact hresult', ?_⟩
        rw [run_bind_ok hrun, hgraph', ok_bind]
        cases h : second w'.graph with
        | ok g => rfl
        | error e => exact hsecond _ e rfl h

theorem leaves_ifSome (name : PropName) (id : Uuid) (value : Option α) (text : α → String)
    (convert : RegistryError → ε) :
    Leaves broker (SchemaRegistryImpl.ifSome value fun value =>
        onError convert (updateSchemaProperty name id (text value)))
      convert w (setProperties w.graph id (optionalProperty name (value.map text))) := by
  cases value with
  | none => exact ⟨rfl, rfl⟩
  | some value =>
    have hrun : run broker _ w = _ := run_updateSchemaProperty w name id (text value)
    have h := leaves_settle w hrun convert
    have hset : (updateSchemaPropertyOutcome w.graph name id (text value)).map (·.2) =
        setProperties w.graph id (optionalProperty name (some (text value))) := by
      unfold updateSchemaPropertyOutcome setProperties
      by_cases hid : w.graph.vertexAt id = none
      · rw [if_pos hid, if_pos ⟨List.cons_ne_nil _ _, hid⟩]
        rfl
      · rw [if_neg hid, if_neg fun h' => hid h'.2]
        rfl
    rw [hset] at h
    exact h

theorem leaves_ifSome_text (name : PropName) (id : Uuid) (value : Option String)
    (convert : RegistryError → ε) :
    Leaves broker (SchemaRegistryImpl.ifSome value fun value =>
        onError convert (updateSchemaProperty name id value))
      convert w (setProperties w.graph id (optionalProperty name value)) := by
  have h : Leaves broker _ convert w _ := leaves_ifSome w name id value (fun value => value) convert
  rw [Option.map_id'] at h
  exact h

/-- Setting properties fails only where nothing was set before. -/
theorem setProperties_error {g g' : Graph} {id : Uuid} {first second : List (PropName × Value)}
    {e : RegistryError} (hfirst : setProperties g id first = .ok g')
    (hsecond : setProperties g' id second = .error e) : g' = g := by
  unfold setProperties at hfirst hsecond
  split at hfirst
  · cases hfirst
  · rename_i hnot
    cases hfirst
    split at hsecond
    · rename_i hmissing
      have hid := hmissing.2
      rw [Graph.vertexAt_setVertexProperties, if_pos rfl, Option.map_eq_none_iff] at hid
      have hnil : first = [] := by_contra fun hne => hnot ⟨hne, hid⟩
      rw [hnil]
      rfl
    · cases hsecond

theorem Leaves.then_set {x y : Fallible ε Unit} {convert : RegistryError → ε} {id : Uuid}
    {first second : List (PropName × Value)}
    (hx : Leaves broker x convert w (setProperties w.graph id first))
    (hy : ∀ w', Leaves broker y convert w' (setProperties w'.graph id second)) :
    Leaves broker (x >>= fun _ => y) convert w (setProperties w.graph id (first ++ second)) := by
  rw [setProperties_append]
  exact hx.bind w (fun w' _ => hy w') fun g e => setProperties_error

theorem leaves_apply {event : ReplicationEvent} (hfresh : Fresh w.supply w.graph event.given) :
    Leaves broker (Slave.apply crates event) (fun error => .root (error.display crates)) w
      (event.outcome crates w.supply w.graph) := by
  cases event with
  | addSchema schema id =>
    have hfresh : Fresh w.supply w.graph (some id).toList := hfresh
    exact (leaves_settle w (run_addSchema w hfresh) _).discard
  | addSchemaVersion id newVersion => exact leaves_settle w (run_addNewVersionOfSchema w hfresh) _
  | updateSchemaMetadata id name topic queryAddress schemaType =>
    unfold Slave.apply ReplicationEvent.outcome metadataProperties
    refine Leaves.then_set w ?_ fun w => Leaves.then_set w ?_ fun w => Leaves.then_set w ?_ fun w => ?_
    · exact leaves_ifSome_text w .schemaName id name _
    · exact leaves_ifSome_text w .schemaTopicName id topic _
    · exact leaves_ifSome_text w .schemaQueryAddress id queryAddress _
    · exact leaves_ifSome w .schemaType id schemaType SchemaType.text _
  | addViewToSchema schemaId view viewId =>
    have hfresh : Fresh w.supply w.graph (schemaId :: (some viewId).toList) := hfresh
    exact (leaves_settle w (run_addViewToSchema w hfresh) _).discard
  | updateView id view => exact (leaves_settle w (run_updateView w id view) _).discard

theorem run_ack (hack : broker.ack = .ok ()) :
    run broker Slave.ack w = (.ok (), { w with acks := w.acks + 1 }) := by
  rw [Slave.ack, run_onError]
  show ((broker.ack).mapError _, _) = _
  rw [hack]
  rfl

theorem run_consumeMessage_of_event {message : MessagingSystem.CommunicationMessage} {text : String}
    {event : ReplicationEvent} (hpayload : message.payload = .ok text)
    (hevent : crates.parseEvent text = .ok event) :
    run broker (Slave.consumeMessage crates message) w =
      run broker (Slave.apply crates event >>= fun _ => Slave.ack) w := by
  unfold Slave.consumeMessage
  rw [hpayload]
  show run broker (ExceptT.mk (.ret (withContext _ ((crates.parseEvent text).mapError .root))) >>=
    fun event => Slave.apply crates event >>= fun _ => Slave.ack) w = _
  rw [hevent]
  rfl

theorem leaves_consumeMessage {message : MessagingSystem.CommunicationMessage} {text : String}
    {event : ReplicationEvent} (hpayload : message.payload = .ok text)
    (hevent : crates.parseEvent text = .ok event) (hack : broker.ack = .ok ())
    (hfresh : Fresh w.supply w.graph event.given) :
    Leaves broker (Slave.consumeMessage crates message)
      (fun error => .root (error.display crates)) w (event.outcome crates w.supply w.graph) := by
  have hdone : ∀ w', Leaves broker Slave.ack (fun error => AnyhowError.root (error.display crates)) w'
      (.ok w'.graph) := by
    intro w'
    constructor <;> rw [run_ack w' hack] <;> rfl
  have happly : Leaves broker (Slave.apply crates event) _ w _ := leaves_apply w hfresh
  have hboth := happly.bind w (fun w' _ => hdone w') fun _ _ _ h => by cases h
  rw [bind_pure_ok] at hboth
  constructor
  · rw [run_consumeMessage_of_event w hpayload hevent]
    exact hboth.result
  · rw [run_consumeMessage_of_event w hpayload hevent]
    exact hboth.graph

/-! ## The renamed definition vertex -/

/-- A definition vertex that another node has drawn another identifier for. -/
theorem eqUpToDefinitions_withDefinition {g : Graph} {id d d' : Uuid} (hid : g.vertexAt id ≠ none)
    (hd : g.vertexAt d = none) (hd' : g.vertexAt d' = none) (version : Version)
    (definition : Definition) :
    EqUpToDefinitions (withDefinition crates g id d version definition)
      (withDefinition crates g id d' version definition) := by
  have hne : id ≠ d := fun h => hid (h ▸ hd)
  have hne' : id ≠ d' := fun h => hid (h ▸ hd')
  have hfresh : ∀ i, Equiv.swap d d' i ≠ i → g.vertexAt i = none := by
    intro i hi
    by_cases h : i = d
    · exact h ▸ hd
    · by_cases h' : i = d'
      · exact h' ▸ hd'
      · exact absurd (Equiv.swap_apply_of_ne_of_ne h h') hi
  refine ⟨Equiv.swap d d', ?_, fun i vertex hi ht => ?_⟩
  · have hiso := ((Graph.Iso.of_fresh hfresh).putVertex d .definition
      definition.intoProperties).putEdge (schemaDefinitionKey id d) (versionProperties crates version)
    have hkey : (schemaDefinitionKey id d).map (Equiv.swap d d') = schemaDefinitionKey id d' := by
      simp only [PropertyGraph.EdgeKey.map, schemaDefinitionKey, Equiv.swap_apply_left,
        Equiv.swap_apply_of_ne_of_ne hne hne']
    rw [Equiv.swap_apply_left, hkey] at hiso
    exact hiso
  · rw [withDefinition, Graph.vertexAt_putEdge, Graph.vertexAt_putVertex _ hd] at hi
    split at hi
    · cases hi
      exact absurd rfl ht
    · by_contra hmoved
      rw [hfresh i hmoved] at hi
      cases hi

end Run
end CommonDataLayer.SchemaRegistry
