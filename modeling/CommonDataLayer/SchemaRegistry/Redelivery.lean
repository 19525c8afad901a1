import CommonDataLayer.Foundations.Runs
import CommonDataLayer.SchemaRegistry.Commutation

/-! # Redelivered events

A Slave gets the events from its stored offset on once more after a restart. An event that it has
applied before is refused, since what it creates is there already, or it sets properties of a vertex
again; what it overwrites with them is overwritten again by the events after it.

* `Applied`: what an event leaves in the graph. It is there in every graph that retains it.
* `outcome_of_applied`: an event that was applied changes nothing but the properties that it sets.
* `Settled`: events were applied, and setting all their properties again, in their order, leaves the
  graph as it is. `settled_run`: so are the events that a run has consumed.
* `redelivery`: the last events of a log that is consumed from the empty database, however many they
  are, leave the database as it is when they are consumed again.
-/
namespace CommonDataLayer.SchemaRegistry
open Interaction PropertyGraph TransitionSystem
set_option autoImplicit false

/-! ## What is there stays -/

/-- What is in the first graph is in the second one, with other texts as properties at most. -/
structure Retains (g g' : Graph) : Prop where
  vertex (i : Uuid) (vertex : Vertex) : g.vertexAt i = some vertex →
    ∃ values : List (PropName × Value), (∀ value ∈ values, ∃ text, value.2 = .string text) ∧
      g'.vertexAt i = some { vertex with props := vertex.props.setAll values }
  edge (key : EdgeKey) : g.edgeAt key ≠ none → g'.edgeAt key = g.edgeAt key

section Retains
variable {g g' : Graph} {id d : Uuid}

theorem Retains.vertexAt (h : Retains g g') (hid : g.vertexAt id ≠ none) : g'.vertexAt id ≠ none := by
  obtain ⟨vertex, hvertex⟩ := Option.ne_none_iff_exists'.mp hid
  obtain ⟨values, -, hvalues⟩ := h.vertex id vertex hvertex
  rw [hvalues]
  exact Option.some_ne_none _

theorem Retains.versionValue (h : Retains g g') {value : Value}
    (hvalue : versionValue g id d = some value) : versionValue g' id d = some value := by
  have hedge : g.edgeAt (schemaDefinitionKey id d) ≠ none := fun hnone => by
    rw [SchemaRegistry.versionValue, hnone] at hvalue
    cases hvalue
  rw [SchemaRegistry.versionValue, h.edge _ hedge]
  exact hvalue

theorem asStr_setAll {props : Props PropName Value} {values : List (PropName × Value)}
    (htexts : ∀ value ∈ values, ∃ text, value.2 = .string text) {name : PropName} {text : String}
    (h : (props name).bind Value.asStr = some text) :
    ∃ text', (props.setAll values name).bind Value.asStr = some text' := by
  rcases Props.setAll_cases values name with hsame | ⟨value, hmem, hset⟩
  · exact ⟨text, by rw [hsame, h]⟩
  · obtain ⟨text', htext⟩ := htexts value hmem
    exact ⟨text', by rw [hset, htext]; rfl⟩

theorem viewAt_eq_ok {view : View} : viewAt g id = .ok view ↔ ∃ vertex,
    g.vertexAt id = some vertex ∧ vertex.t = .view ∧
      (vertex.props .viewName).bind Value.asStr = some view.name ∧
        (vertex.props .jmespath).bind Value.asStr = some view.jmespath := by
  rw [viewAt]
  cases g.vertexAt id with
  | none => simp
  | some vertex =>
    by_cases ht : vertex.t = .view
    · rw [Option.filter_some, if_pos (decide_eq_true ht)]
      simp only [Option.some.injEq, exists_eq_left', ht, true_and]
      obtain ⟨name, jmespath⟩ := view
      rw [View.fromProperties, Option.bind_eq_bind, Option.bind_eq_bind]
      cases (vertex.props .viewName).bind Value.asStr with
      | none => simp
      | some name' =>
        cases (vertex.props .jmespath).bind Value.asStr with
        | none => simp
        | some jmespath' => simp
    · rw [Option.filter_some, if_neg (by simpa using ht)]
      simp [ht]

/-- A view stays a view. -/
theorem Retains.viewAt (h : Retains g g') {view : View} (hview : viewAt g id = .ok view) :
    ∃ view', SchemaRegistry.viewAt g' id = .ok view' := by
  obtain ⟨vertex, hvertex, ht, hname, hjmespath⟩ := viewAt_eq_ok.mp hview
  obtain ⟨values, htexts, hvertex'⟩ := h.vertex id vertex hvertex
  obtain ⟨name, hname'⟩ := asStr_setAll htexts hname
  obtain ⟨jmespath, hjmespath'⟩ := asStr_setAll htexts hjmespath
  exact ⟨⟨name, jmespath⟩, viewAt_eq_ok.mpr ⟨_, hvertex', ht, hname', hjmespath'⟩⟩

end Retains

/-! ## Events that were applied -/

namespace ReplicationEvent

/-- Sets these properties, and creates nothing. -/
def overwrite (g : Graph) : ReplicationEvent → Graph
  | updateSchemaMetadata id name topic queryAddress schemaType =>
    g.setVertexProperties id (metadataProperties name topic queryAddress schemaType)
  | updateView id view => g.setVertexProperties id view.properties
  | _ => g

/-- What an event has created is there, and what it changes can be changed again. -/
def Applied (crates : Crates) (g : Graph) : ReplicationEvent → Prop
  | addSchema _ id => g.vertexAt id ≠ none
  | addSchemaVersion id newVersion =>
    ∃ d, versionValue g id d = some (.string (crates.showVersion newVersion.version))
  | updateSchemaMetadata id name topic queryAddress schemaType =>
    (updateSchemaMetadata id name topic queryAddress schemaType).Ready crates g ⟨.null⟩
  | addViewToSchema _ _ viewId => g.vertexAt viewId ≠ none
  | updateView id view => (updateView id view).Ready crates g ⟨.null⟩

variable {crates : Crates} {event : ReplicationEvent} {g g' : Graph} {full : Definition} {d i : Uuid}

theorem metadataProperties_texts (name topic queryAddress : Option String)
    (schemaType : Option SchemaType) :
    ∀ value ∈ metadataProperties name topic queryAddress schemaType,
      ∃ text, value.2 = Value.string text := by
  intro value hvalue
  simp only [metadataProperties, optionalProperty, List.mem_append, Option.mem_toList,
    Option.map_eq_some_iff] at hvalue
  rcases hvalue with ⟨text, -, rfl⟩ | ⟨text, -, rfl⟩ | ⟨text, -, rfl⟩ | ⟨text, -, rfl⟩ <;>
    exact ⟨text, rfl⟩

theorem viewProperties_texts (view : ViewUpdate) :
    ∀ value ∈ view.properties, ∃ text, value.2 = Value.string text := by
  intro value hvalue
  simp only [ViewUpdate.properties, List.mem_append, Option.mem_toList,
    Option.map_eq_some_iff] at hvalue
  rcases hvalue with ⟨text, -, rfl⟩ | ⟨text, -, rfl⟩ <;> exact ⟨text, rfl⟩

theorem assigns_texts : ∀ value ∈ event.assigns i, ∃ text, value.2 = Value.string text := by
  have hnone : ∀ value ∈ ([] : List (PropName × Value)), ∃ text, value.2 = Value.string text :=
    List.forall_mem_nil _
  cases event with
  | updateSchemaMetadata id name topic queryAddress schemaType =>
    rw [assigns]
    split
    · exact metadataProperties_texts name topic queryAddress schemaType
    · exact hnone
  | updateView id view =>
    rw [assigns]
    split
    · exact viewProperties_texts view
    · exact hnone
  | _ => exact hnone

theorem vertexAt_overwrite (event : ReplicationEvent) (g : Graph) (i : Uuid) :
    (event.overwrite g).vertexAt i = (g.vertexAt i).map fun vertex =>
      { vertex with props := vertex.props.setAll (event.assigns i) } := by
  cases event with
  | updateSchemaMetadata id name topic queryAddress schemaType =>
    rw [overwrite, Graph.vertexAt_setVertexProperties, assigns]
    split
    · rfl
    · cases g.vertexAt i <;> rfl
  | updateView id view =>
    rw [overwrite, Graph.vertexAt_setVertexProperties, assigns]
    split
    · rfl
    · cases g.vertexAt i <;> rfl
  | _ =>
    show g.vertexAt i = _
    cases g.vertexAt i <;> rfl

theorem edgeAt_overwrite (event : ReplicationEvent) (g : Graph) (key : EdgeKey) :
    (event.overwrite g).edgeAt key = g.edgeAt key := by
  cases event with
  | updateSchemaMetadata => exact Graph.edgeAt_setVertexProperties _ _ _ _
  | updateView => exact Graph.edgeAt_setVertexProperties _ _ _ _
  | _ => rfl

theorem retains_overwrite (event : ReplicationEvent) (g : Graph) : Retains g (event.overwrite g) where
  vertex i vertex hi := ⟨event.assigns i, assigns_texts, by rw [vertexAt_overwrite, hi]; rfl⟩
  edge key _ := edgeAt_overwrite event g key

theorem retains_write (h : event.Ready crates g full) (hd : event.Draws g event.given d) :
    Retains g (event.write crates d full g) where
  vertex i _ hi := ⟨event.assigns i, assigns_texts, vertexAt_write_of_some h hd hi⟩
  edge _ := edgeAt_write_of_ne_none h hd

theorem Applied.of_retains (h : event.Applied crates g) (hretains : Retains g g') :
    event.Applied crates g' := by
  cases event with
  | addSchema schema id => exact hretains.vertexAt h
  | addSchemaVersion id newVersion => exact h.imp fun d => hretains.versionValue
  | updateSchemaMetadata id name topic queryAddress schemaType =>
    exact fun hne => hretains.vertexAt (h hne)
  | addViewToSchema schemaId view viewId => exact hretains.vertexAt h
  | updateView id view => exact ⟨h.1.elim fun _ => hretains.viewAt, h.2⟩

theorem applied_write (h : event.Ready crates g full) (hd : event.Draws g event.given d) :
    event.Applied crates (event.write crates d full g) := by
  cases event with
  | addSchema schema id => exact vertexAt_write_creates h hd rfl
  | addSchemaVersion id newVersion =>
    refine ⟨d, ?_⟩
    rw [versionValue, edgeAt_write h hd, edgeAfter]
    simp only [newEdge, if_true]
    rfl
  | updateSchemaMetadata id name topic queryAddress schemaType =>
    exact Applied.of_retains (g := g) h (retains_write h hd)
  | addViewToSchema schemaId view viewId => exact vertexAt_write_creates h hd rfl
  | updateView id view => exact Applied.of_retains (g := g) h (retains_write h hd)

/-- A version that a schema has is not greater than all of its versions. -/
theorem not_greatestVersion {id : Uuid} {version : Version}
    (hvalue : versionValue g id d = some (.string (crates.showVersion version)))
    (hparse : crates.parseVersion (crates.showVersion version) = .ok version) :
    greatestVersion crates g id version ≠ .ok () := by
  intro hgreatest
  obtain ⟨found, hfound, hless⟩ := greatestVersion_eq_ok hgreatest
  have hmem : (version, d) ∈ found := by
    rw [mem_versions hfound, hvalue, Option.bind_some, versionOfValue_show hparse]
  have hself : compare version version = .lt := hless _ hmem
  have heq : compare version version = .eq := Std.ReflCmp.compare_self
  rw [heq] at hself
  cases hself

theorem outcome_of_not_ready (h : ∀ full, ¬ event.Ready crates g full) (draw : ℕ → Uuid) :
    (event.outcome crates draw g).toOption.getD g = g := by
  cases houtcome : event.outcome crates draw g with
  | error e => rfl
  | ok g' =>
    obtain ⟨full, hready, -⟩ := outcome_eq_ok.mp houtcome
    exact absurd hready (h full)

theorem outcome_of_ready (h : event.Ready crates g full) (draw : ℕ → Uuid) :
    (event.outcome crates draw g).toOption.getD g = event.write crates (draw 0) full g := by
  rw [outcome_eq_ok.mpr ⟨full, h, rfl⟩]
  rfl

/-- Applied again, an event only sets its properties again: what it creates is refused. -/
theorem outcome_of_applied (h : event.Applied crates g) (hversion : event.ReadsBack crates)
    (draw : ℕ → Uuid) : (event.outcome crates draw g).toOption.getD g = event.overwrite g := by
  cases event with
  | addSchema schema id =>
    apply outcome_of_not_ready
    intro full hready
    exact h hready.2
  | addSchemaVersion id newVersion =>
    obtain ⟨d, hvalue⟩ := h
    apply outcome_of_not_ready
    intro full hready
    exact not_greatestVersion hvalue hversion hready.2.1
  | updateSchemaMetadata id name topic queryAddress schemaType =>
    have hready : (updateSchemaMetadata id name topic queryAddress schemaType).Ready crates g ⟨.null⟩ :=
      h
    exact outcome_of_ready hready draw
  | addViewToSchema schemaId view viewId =>
    apply outcome_of_not_ready
    intro full hready
    exact h hready.2.2
  | updateView id view =>
    have hready : (updateView id view).Ready crates g ⟨.null⟩ := h
    exact outcome_of_ready hready draw

/-! ## Setting all properties again -/

theorem assigns_of_requires (h : ∀ j, event.requires = some j → j ≠ i) : event.assigns i = [] := by
  cases event with
  | updateSchemaMetadata id name topic queryAddress schemaType =>
    rw [assigns]
    by_cases hempty : metadataProperties name topic queryAddress schemaType = []
    · rw [hempty, ite_self]
    · exact if_neg (h id (if_neg (by simpa using hempty)))
  | updateView id view => exact if_neg (h id rfl)
  | _ => rfl

theorem Ready.assigns (h : event.Ready crates g full) (hi : g.vertexAt i = none) :
    event.assigns i = [] :=
  assigns_of_requires fun _ hj heq => h.requires hj (heq ▸ hi)

theorem Applied.assigns (h : event.Applied crates g) (hi : g.vertexAt i = none) :
    event.assigns i = [] := by
  cases event with
  | updateSchemaMetadata id name topic queryAddress schemaType =>
    have hready : (updateSchemaMetadata id name topic queryAddress schemaType).Ready crates g ⟨.null⟩ :=
      h
    exact hready.assigns hi
  | updateView id view =>
    have hready : (updateView id view).Ready crates g ⟨.null⟩ := h
    exact hready.assigns hi
  | _ => rfl

end ReplicationEvent

section Settled
variable {crates : Crates} {g : Graph} {events : List ReplicationEvent} {event : ReplicationEvent}
  {full : Definition} {d : Uuid}

theorem vertexAt_overwriteAll (events : List ReplicationEvent) (g : Graph) (i : Uuid) :
    (events.foldl ReplicationEvent.overwrite g).vertexAt i = (g.vertexAt i).map fun vertex =>
      { vertex with props := vertex.props.setAll (events.flatMap (·.assigns i)) } := by
  induction events generalizing g with
  | nil =>
    show g.vertexAt i = _
    cases g.vertexAt i <;> rfl
  | cons event events ih =>
    rw [List.foldl_cons, ih, event.vertexAt_overwrite, Option.map_map]
    refine congrArg (Option.map · (g.vertexAt i)) (funext fun vertex => ?_)
    rw [Function.comp_apply, List.flatMap_cons, Props.setAll_append]

theorem edgeAt_overwriteAll (events : List ReplicationEvent) (g : Graph) (key : EdgeKey) :
    (events.foldl ReplicationEvent.overwrite g).edgeAt key = g.edgeAt key := by
  induction events generalizing g with
  | nil => rfl
  | cons event events ih => rw [List.foldl_cons, ih, event.edgeAt_overwrite]

theorem applied_overwriteAll (h : event.Applied crates g) (events : List ReplicationEvent) :
    event.Applied crates (events.foldl ReplicationEvent.overwrite g) := by
  induction events generalizing g with
  | nil => exact h
  | cons first events ih => exact ih (h.of_retains (first.retains_overwrite g))

/-- The events were applied, and overwriting with all of them again changes nothing. -/
structure Settled (crates : Crates) (g : Graph) (events : List ReplicationEvent) : Prop where
  applied : ∀ event ∈ events, event.Applied crates g
  overwritten : events.foldl ReplicationEvent.overwrite g = g

theorem settled_nil (g : Graph) : Settled crates g [] := ⟨List.forall_mem_nil _, rfl⟩

theorem Settled.assigns (h : Settled crates g events) {i : Uuid} (hi : g.vertexAt i = none) :
    events.flatMap (·.assigns i) = [] :=
  List.flatMap_eq_nil_iff.mpr fun event hevent => (h.applied event hevent).assigns hi

theorem Settled.props (h : Settled crates g events) {i : Uuid} {vertex : Vertex}
    (hi : g.vertexAt i = some vertex) :
    vertex.props.setAll (events.flatMap (·.assigns i)) = vertex.props := by
  have hsame := vertexAt_overwriteAll events g i
  rw [h.overwritten, hi, Option.map_some, Option.some.injEq] at hsame
  exact (congrArg Vertex.props hsame).symm

/-- An event creates what the events before it do not touch, and what it sets, it sets last. -/
theorem Settled.step (h : Settled crates g events) (hready : event.Ready crates g full)
    (hd : event.Draws g event.given d) :
    Settled crates (event.write crates d full g) (events ++ [event]) where
  applied := by
    rw [List.forall_mem_append, List.forall_mem_singleton]
    refine ⟨fun earlier hearlier => ?_, event.applied_write hready hd⟩
    exact (h.applied earlier hearlier).of_retains (event.retains_write hready hd)
  overwritten := by
    refine Graph.ext_lookup (fun i => ?_) (edgeAt_overwriteAll _ _)
    rw [vertexAt_overwriteAll, List.flatMap_append, List.flatMap_singleton]
    cases hi : g.vertexAt i with
    | none =>
      rw [h.assigns hi, hready.assigns hi, List.append_nil]
      cases (event.write crates d full g).vertexAt i <;> rfl
    | some vertex =>
      rw [event.vertexAt_write_of_some hready hd hi, Option.map_some,
        Props.setAll_again (h.props hi)]

end Settled

/-! ## The consumer of a Slave -/

/-- A Slave consumes a message with the event and acknowledges it. -/
def Consumes (crates : Crates) (g : Graph) (event : ReplicationEvent) (g' : Graph) : Prop :=
  ∃ (broker : Broker) (message : MessagingSystem.CommunicationMessage) (w w' : World),
    Carries crates message event ∧ w.graph = g ∧ Fresh w.supply w.graph event.given ∧
      run broker (Slave.consumeMessage crates message) w = (.ok (), w') ∧ w'.graph = g'

/-- A Slave is given a message with the event, and consumes it or returns an error. -/
def Redelivers (crates : Crates) (g : Graph) (event : ReplicationEvent) (g' : Graph) : Prop :=
  ∃ (broker : Broker) (message : MessagingSystem.CommunicationMessage) (w : World),
    Carries crates message event ∧ w.graph = g ∧ Fresh w.supply w.graph event.given ∧
      (run broker (Slave.consumeMessage crates message) w).2.graph = g'

section Consumer
variable {crates : Crates} {s s' : Graph} {ts ts' : List (Transition Graph ReplicationEvent)}
  {event : ReplicationEvent}

theorem consumes_of_ready {w : World} {message : MessagingSystem.CommunicationMessage}
    {full : Definition} (hmessage : Carries crates message event)
    (hfresh : Fresh w.supply w.graph event.given) (hready : event.Ready crates w.graph full) :
    Consumes crates w.graph event (event.write crates (w.supply 0) full w.graph) := by
  obtain ⟨w', hrun, hgraph⟩ : ∃ w', run sampleBroker (Slave.consumeMessage crates message) w =
      (.ok (), w') ∧ w'.graph = event.write crates (w.supply 0) full w.graph :=
    consumed_of_ready hmessage rfl hfresh hready
  exact ⟨sampleBroker, message, w, w', hmessage, rfl, hfresh, hrun, hgraph⟩

/-- What a run has consumed is settled. -/
theorem settled_run (hrun : Run (Consumes crates) s ts s') :
    Settled crates s' (ts.map (·.label)) := by
  induction hrun with
  | start => exact settled_nil s
  | step _ next ih =>
    obtain ⟨broker, message, w, w', hmessage, rfl, hfresh, hconsumed, rfl⟩ := next
    have houtcome := outcome_of_consumed hmessage hfresh hconsumed
    obtain ⟨full, hready, hgraph⟩ := ReplicationEvent.outcome_eq_ok.mp houtcome
    rw [List.map_append, List.map_singleton, hgraph]
    exact ih.step hready hfresh.draws

theorem redelivers_of_applied {w : World} {message : MessagingSystem.CommunicationMessage}
    (hmessage : Carries crates message event) (hfresh : Fresh w.supply w.graph event.given)
    (happlied : event.Applied crates w.graph) (hversion : event.ReadsBack crates) :
    Redelivers crates w.graph event (event.overwrite w.graph) := by
  refine ⟨sampleBroker, message, w, hmessage, rfl, hfresh, ?_⟩
  rw [consumeMessage_graph hmessage hfresh, event.outcome_of_applied happlied hversion]

/-- Redelivered events set their properties again and do nothing else. -/
theorem redelivered_run (happlied : ∀ t ∈ ts, t.label.Applied crates s)
    (hversions : ∀ t ∈ ts, t.label.ReadsBack crates) (hrun : Run (Redelivers crates) s ts s') :
    s' = (ts.map (·.label)).foldl ReplicationEvent.overwrite s := by
  induction hrun with
  | start => rfl
  | @step ts _ _ event _ next ih =>
    rw [List.forall_mem_append, List.forall_mem_singleton] at happlied hversions
    obtain ⟨broker, message, w, hmessage, rfl, hfresh, rfl⟩ := next
    have hgraph := ih happlied.1 hversions.1
    have hagain : event.Applied crates w.graph := by
      rw [hgraph]
      exact applied_overwriteAll happlied.2 _
    rw [consumeMessage_graph hmessage hfresh,
      ReplicationEvent.outcome_of_applied hagain hversions.2, List.map_append, List.foldl_append,
      ← hgraph]
    rfl

/-- The database that a log has led to stays as it is when any suffix of the log is consumed again,
event by event, with or without errors. -/
theorem redelivery (hrun : Run (Consumes crates) .empty ts s)
    (hversions : ∀ t ∈ ts, t.label.ReadsBack crates) (k : ℕ)
    (hsuffix : ts'.map (·.label) = (ts.map (·.label)).drop k)
    (hagain : Run (Redelivers crates) s ts' s') : s' = s := by
  obtain ⟨mid, hmid⟩ := hrun.drop k
  have hsettled := settled_run hmid
  rw [List.map_drop, ← hsuffix] at hsettled
  have hlabels : ∀ event ∈ ts'.map (·.label), event.ReadsBack crates := fun event hevent => by
    rw [hsuffix] at hevent
    obtain ⟨t, ht, rfl⟩ := List.mem_map.mp (List.mem_of_mem_drop hevent)
    exact hversions t ht
  have hagain := redelivered_run (List.forall_mem_map.mp hsettled.applied)
    (List.forall_mem_map.mp hlabels) hagain
  exact hagain.trans hsettled.overwritten

end Consumer

/-! ## A view that is renamed -/

def addSchemaText : String :=
  "\x7b\"AddSchema\":\x7b\"schema\":\x7b\"name\":\"orders\",\"definition\":\x7b\x7d," ++
  "\"kafka_topic\":\"topic\",\"query_address\":\"address\"," ++
  "\"schema_type\":\"DocumentStorage\"\x7d," ++
  "\"id\":\"00000000-0000-0000-0000-000000000001\"\x7d\x7d"

def addSchemaEvent : ReplicationEvent := .addSchema sampleNewSchema 1

def sampleLogCrates : Crates :=
  { sampleViewCrates with parseEvent := fun text =>
      if text = addSchemaText then .ok addSchemaEvent else sampleViewCrates.parseEvent text }

theorem carries_addSchema : Carries sampleLogCrates ⟨.ok (Uuid.toText 1), .ok addSchemaText⟩
    addSchemaEvent :=
  ⟨addSchemaText, rfl, by simp [sampleLogCrates]⟩

theorem carries_addView : Carries sampleLogCrates addViewMessage addViewEvent := by
  have hne : addViewText ≠ addSchemaText := by decide +kernel
  exact ⟨addViewText, rfl, by simp [sampleLogCrates, hne, parse_addView]⟩

theorem carries_renameView : Carries sampleLogCrates renameViewMessage renameViewEvent := by
  have hne : renameViewText ≠ addSchemaText := by decide +kernel
  exact ⟨renameViewText, rfl, by simp [sampleLogCrates, hne, parse_renameView]⟩

def sampleLog : List (Transition Graph ReplicationEvent) :=
  [⟨.empty, addSchemaEvent, sampleGraph⟩, ⟨sampleGraph, addViewEvent, sampleSlaveAdded.graph⟩,
    ⟨sampleSlaveAdded.graph, renameViewEvent, sampleSlaveRenamed.graph⟩]

theorem ready_renameView : renameViewEvent.Ready sampleLogCrates sampleSlaveAdded.graph ⟨.null⟩ :=
  ⟨⟨sampleView, viewAt_sampleSlaveAdded⟩, nofun⟩

theorem run_sampleLog :
    Run (Consumes sampleLogCrates) Graph.empty sampleLog sampleSlaveRenamed.graph := by
  have hschema : Consumes sampleLogCrates .empty addSchemaEvent sampleGraph := by
    have hfresh : Fresh (sampleWorld .empty 2 4).supply Graph.empty addSchemaEvent.given :=
      ⟨by simp [sampleWorld], by decide, by decide⟩
    have hready : addSchemaEvent.Ready sampleLogCrates .empty ⟨.object []⟩ := ⟨rfl, rfl⟩
    exact consumes_of_ready carries_addSchema hfresh hready
  have hview : Consumes sampleLogCrates sampleGraph addViewEvent sampleSlaveAdded.graph := by
    have hready : addViewEvent.Ready sampleLogCrates sampleGraph ⟨.null⟩ := by
      refine ⟨?_, rfl, free_sampleGraph (by decide) (by decide)⟩
      rw [vertexAt_sampleGraph]
      exact Option.some_ne_none _
    exact consumes_of_ready carries_addView (fresh_sampleSlave.of_subset (by decide)) hready
  have hrename : Consumes sampleLogCrates sampleSlaveAdded.graph renameViewEvent
      sampleSlaveRenamed.graph :=
    consumes_of_ready carries_renameView (fresh_sampleSlaveAdded.of_subset (by decide)) ready_renameView
  exact ((Run.start.step hschema).step hview).step hrename

theorem fresh_sampleSlaveRenamed :
    Fresh sampleSlaveRenamed.supply sampleSlaveRenamed.graph [1, 3, 3] := by
  refine ⟨fun n hn => ?_, fresh_sampleSlave.notGiven, fresh_sampleSlave.distinct⟩
  have hne : 3 ≠ sampleSlave.supply n := fun heq => fresh_sampleSlave.notGiven n hn (by simp [← heq])
  show (sampleSlaveAdded.graph.setVertexProperties 3 _).vertexAt (sampleSlave.supply n) = none
  rw [Graph.vertexAt_setVertexProperties, if_neg hne]
  exact fresh_sampleSlaveAdded.free n hn

/-- The view is not created again, and it is renamed again. -/
theorem redelivery_sampleLog : ∃ ts s, Run (Redelivers sampleLogCrates) sampleSlaveRenamed.graph ts s ∧
    ts.map (·.label) = [addViewEvent, renameViewEvent] ∧ s = sampleSlaveRenamed.graph := by
  have hview : Redelivers sampleLogCrates sampleSlaveRenamed.graph addViewEvent
      sampleSlaveRenamed.graph :=
    redelivers_of_applied carries_addView (fresh_sampleSlaveRenamed.of_subset (by decide))
      ((settled_run run_sampleLog).applied _ (by simp [sampleLog])) trivial
  have hrename : Redelivers sampleLogCrates sampleSlaveRenamed.graph renameViewEvent
      (renameViewEvent.overwrite sampleSlaveRenamed.graph) :=
    redelivers_of_applied carries_renameView (fresh_sampleSlaveRenamed.of_subset (by decide))
      ((settled_run run_sampleLog).applied _ (by simp [sampleLog])) trivial
  have hagain := (Run.start.step hview).step hrename
  have hversions : ∀ t ∈ sampleLog, t.label.ReadsBack sampleLogCrates := by
    rw [sampleLog]
    simp [addSchemaEvent, addViewEvent, renameViewEvent, ReplicationEvent.ReadsBack]
  refine ⟨_, _, hagain, rfl, redelivery run_sampleLog hversions 1 ?_ hagain⟩
  rfl

end CommonDataLayer.SchemaRegistry
