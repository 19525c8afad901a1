import CommonDataLayer.Api.Schema
import CommonDataLayer.SchemaRegistry.RpcRecords
import CommonDataLayer.Wire.UuidText

/-! # The GraphQL API over the records

A query or a mutation about schemas makes up to three calls of the registry. `Answers` says what each
of them is for, on the records alone: a mutation changes one record and returns it as it is
afterwards, or leaves all as it was; a query returns what the records say.

`api_refines_records`: every run of queries and mutations over an empty registry is one of `Answers`.
So none of them fails for a text or a number that came from the registry.
-/
namespace CommonDataLayer.Api.Registry
open Interaction SchemaRegistry PropertyGraph TransitionSystem
set_option autoImplicit false

/-! ## What the API is for -/

inductive Operation where
  | addSchema (new : NewSchema)
  | addSchemaDefinition (schemaId : Uuid) (newVersion : NewVersion)
  | addView (schemaId : Uuid) (newView : NewView)
  | updateView (id : Uuid) (update : UpdateView)
  | updateSchema (id : Uuid) (update : UpdateSchema)
  | schema (id : Uuid)
  | schemas
  | view (id : Uuid)
  | views (schemaId : Uuid)

inductive Returned where
  | schema (schema : Schema)
  | schemas (schemas : List Schema)
  | definition (definition : Definition)
  | view (view : View)
  | views (views : List View)

namespace SchemaType

def toRecord : SchemaType → SchemaRegistry.SchemaType
  | documentStorage => .documentStorage
  | timeseries => .timeseries

def ofRecord : SchemaRegistry.SchemaType → SchemaType
  | .documentStorage => documentStorage
  | .timeseries => timeseries

@[simp] theorem ofRecord_toRecord (t : SchemaType) : ofRecord t.toRecord = t := by cases t <;> rfl

@[simp] theorem fromI32_toI32 (t : SchemaRegistry.SchemaType) : fromI32 t.toI32 = some (ofRecord t) := by
  cases t <;> rfl

@[simp] theorem toI32_toRecord (t : SchemaType) : t.toRecord.toI32 = t.toI32 := by cases t <;> rfl

@[simp] theorem ofI32_toI32 (t : SchemaType) : SchemaRegistry.SchemaType.ofI32 t.toI32 = some t.toRecord := by
  cases t <;> rfl

end SchemaType

def schemaOfRecord (id : Uuid) (schema : SchemaRegistry.Schema) : Schema where
  id := id
  name := schema.name
  topic := schema.kafkaTopic
  queryAddress := schema.queryAddress
  schemaType := .ofRecord schema.schemaType

def viewOfRecord (id : Uuid) (view : SchemaRegistry.View) : View where
  id := id
  name := view.name
  expression := view.jmespath

def NewSchema.record (new : NewSchema) : SchemaRegistry.Schema where
  name := new.name
  kafkaTopic := new.topic
  queryAddress := new.queryAddress
  schemaType := new.schemaType.toRecord

def UpdateSchema.applied (update : UpdateSchema) (schema : SchemaRegistry.Schema) :
    SchemaRegistry.Schema :=
  schema.updated update.name update.topic update.queryAddress (update.schemaType.map SchemaType.toRecord)

def UpdateView.applied (update : UpdateView) (view : SchemaRegistry.View) : SchemaRegistry.View :=
  ViewUpdate.applied ⟨update.name, update.expression⟩ view

namespace Operation

def perform (crates : RpcCrates) : Operation → FieldResult Returned
  | addSchema new => Returned.schema <$> Registry.addSchema crates new
  | addSchemaDefinition schemaId newVersion =>
    Returned.definition <$> Registry.addSchemaDefinition schemaId newVersion
  | addView schemaId newView => Returned.view <$> Registry.addView crates schemaId newView
  | updateView id update => Returned.view <$> Registry.updateView id update
  | updateSchema id update => Returned.schema <$> Registry.updateSchema id update
  | schema id => Returned.schema <$> Registry.schema id
  | schemas => Returned.schemas <$> Registry.schemas crates
  | view id => Returned.view <$> Registry.view id
  | views schemaId => Returned.views <$> Registry.views crates schemaId

/-- The request of a mutation. -/
def request : Operation → Option Request
  | addSchema new => some (.addSchema "" new.name new.definition new.topic new.queryAddress
      new.schemaType.toI32)
  | addSchemaDefinition schemaId newVersion =>
    some (.addSchemaVersion schemaId.toText newVersion.version newVersion.definition)
  | addView schemaId newView =>
    some (.addViewToSchema schemaId.toText "" newView.name newView.expression)
  | updateView id update => some (.updateView id.toText update.name update.expression)
  | updateSchema id update => some (.updateSchemaMetadata id.toText update.name update.topic
      update.queryAddress (update.schemaType.map SchemaType.toI32))
  | _ => none

/-- The identifiers that are given as those of schemas. -/
def schemaIds : Operation → List Uuid
  | addView schemaId _ => [schemaId]
  | addSchemaDefinition schemaId _ => [schemaId]
  | updateSchema id _ => [id]
  | schema id => [id]
  | views schemaId => [schemaId]
  | _ => []

end Operation

def refusal (status : Status) : FieldError := .client (.queryError status)

def answerOf {α : Type} (crates : Crates) (returned : α → Returned) :
    Except RegistryError α → Except FieldError Returned
  | .ok a => .ok (returned a)
  | .error e => .error (refusal (e.status crates))

inductive Answers (crates : Crates) :
    Records → Operation → Except FieldError Returned → Records → Prop where
  | addSchema {r : Records} {new : NewSchema} {id : Uuid} (free : r.Free id) :
      Answers crates r (.addSchema new) (.ok (.schema (schemaOfRecord id new.record)))
        (r.setSchema id new.record)
  | addSchemaDefinition {r : Records} {id : Uuid} {new : NewVersion} (found : r.schemas id ≠ none) :
      Answers crates r (.addSchemaDefinition id new)
        (.ok (.definition ⟨new.definition, new.version⟩)) r
  | addView {r : Records} {id schemaId : Uuid} {new : NewView} (found : r.schemas schemaId ≠ none)
      (free : r.Free id) : Answers crates r (.addView schemaId new)
        (.ok (.view ⟨id, new.name, new.expression⟩)) (r.setView id schemaId ⟨new.name, new.expression⟩)
  | updateView {r : Records} {id schemaId : Uuid} {view : SchemaRegistry.View} {update : UpdateView}
      (found : r.views id = some (schemaId, view)) : Answers crates r (.updateView id update)
        (.ok (.view (viewOfRecord id (update.applied view))))
        (r.setView id schemaId (update.applied view))
  | updateSchema {r : Records} {id : Uuid} {schema : SchemaRegistry.Schema} {update : UpdateSchema}
      (found : r.schemas id = some schema) : Answers crates r (.updateSchema id update)
        (.ok (.schema (schemaOfRecord id (update.applied schema))))
        (r.setSchema id (update.applied schema))
  | refused {r : Records} {op : Operation} (mutation : op.request ≠ none) (status : Status) :
      Answers crates r op (.error (refusal status)) r
  | schema {r : Records} {id : Uuid} : Answers crates r (.schema id)
      (answerOf crates (fun schema => .schema (schemaOfRecord id schema)) (r.schema id)) r
  | view {r : Records} {id : Uuid} : Answers crates r (.view id)
      (answerOf crates (fun view => .view (viewOfRecord id view)) (r.view id)) r
  | schemas {r : Records} {entries : List (Uuid × SchemaRegistry.Schema)}
      (lists : Lists entries r.schemas) : Answers crates r .schemas
        (.ok (.schemas (entries.map fun entry => schemaOfRecord entry.1 entry.2))) r
  | views {r : Records} {id : Uuid} {entries : List (Uuid × SchemaRegistry.View)}
      (lists : Lists entries (r.viewsOf id)) : Answers crates r (.views id)
        (answerOf crates (fun _ => .views (entries.map fun entry => viewOfRecord entry.1 entry.2))
          (r.schema id)) r

/-! ## The programs over one database -/

/-- What a query or a mutation comes to, and the database it leaves. -/
def run {α : Type} (broker : Broker) (crates : RpcCrates) (maps : MapOrder) (x : FieldResult α)
    (w : World) : Except FieldError α × World :=
  Program.run (serve broker crates maps) x.run w

section Runs
variable {broker : Broker} {crates : RpcCrates} {maps : MapOrder} {w w' : World} {r : Records}
  {α β : Type} {result : Except FieldError Returned}

theorem run_connect_bind (f : Unit → FieldResult α) :
    run broker crates maps (connectToRegistry >>= f) w = run broker crates maps (f ()) w := rfl

theorem run_registry {x : Program Answer (Except Status α)} : run broker crates maps (registry x) w =
    ((Program.run (serve broker crates maps) x w).1.mapError refusal,
      (Program.run (serve broker crates maps) x w).2) := by
  show Program.run _ (x.bind fun r => .ret _) w = _
  rw [Program.run_bind]
  rfl

theorem run_bind_ok {x : FieldResult α} {a : α} (h : run broker crates maps x w = (.ok a, w'))
    (f : α → FieldResult β) :
    run broker crates maps (x >>= f) w = run broker crates maps (f a) w' := by
  show Program.run _ (x >>= f).run w = _
  rw [Program.run_exceptT_bind, show Program.run _ x.run w = _ from h]
  rfl

theorem run_bind_error {x : FieldResult α} {e : FieldError}
    (h : run broker crates maps x w = (.error e, w')) (f : α → FieldResult β) :
    run broker crates maps (x >>= f) w = (.error e, w') := by
  show Program.run _ (x >>= f).run w = _
  rw [Program.run_exceptT_bind, show Program.run _ x.run w = _ from h]

theorem run_map (f : α → β) (x : FieldResult α) : run broker crates maps (f <$> x) w =
    ((run broker crates maps x w).1.map f, (run broker crates maps x w).2) := by
  rw [← bind_pure_comp]
  cases h : run broker crates maps x w with
  | mk r w' =>
    cases r with
    | ok a => rw [run_bind_ok h]; rfl
    | error e => rw [run_bind_error h]; rfl

/-! ### Queries -/

theorem schemaOfMessage_ofSchema (id : Uuid) (schema : SchemaRegistry.Schema) :
    schemaOfMessage id (Message.ofSchema schema) = .ok (schemaOfRecord id schema) := by
  rw [schemaOfMessage, Message.ofSchema, SchemaType.fromI32_toI32]
  rfl

/-- What the reads of one record come to. -/
def found {α : Type} (crates : Crates) (r : Except RegistryError α) : Except FieldError α :=
  r.mapError fun e => refusal (e.status crates)

theorem map_found (crates : Crates) (result : Except RegistryError α) (f : α → β) (returned : β → Returned) :
    (found crates (result.map f)).map returned = answerOf crates (fun a => returned (f a)) result := by
  cases result <;> rfl

theorem lists_perm {map : Uuid → Option α} {entries entries' : List (Uuid × α)} (h : Lists entries map)
    (hperm : entries'.Perm entries) : Lists entries' map where
  nodup := (hperm.map _).nodup_iff.mpr h.nodup
  mem id a := hperm.mem_iff.trans (h.mem id a)

/-- A map in a message, in the order in which it is read. -/
theorem mapM_ofEntries {map : Uuid → Option α} {entries : List (Uuid × α)} (h : Lists entries map)
    {message : α → β} {γ : Type} {convert : Uuid × α → γ} {ofEntry : String × β → Except Error γ}
    (hentry : ∀ entry : Uuid × α, ofEntry (entry.1.toText, message entry.2) = .ok (convert entry)) :
    ∃ entries', (maps.order (Message.ofEntries message entries)).mapM ofEntry =
      .ok (entries'.map convert) ∧ Lists entries' map := by
  have hcomp : Relation.Comp (· = List.map (fun entry => (entry.1.toText, message entry.2)) ·) List.Perm
      (maps.order (Message.ofEntries message entries)) entries := by
    rw [List.eq_map_comp_perm]
    exact maps.perm _
  obtain ⟨entries', heq, hperm⟩ := hcomp
  refine ⟨entries', ?_, lists_perm h hperm⟩
  rw [heq]
  exact mapM_map_eq_ok hentry entries'

variable (hids : ∀ id : Uuid, crates.parseUuid id.toText = .ok id)
include hids

theorem run_getSchema (h : Represents w.graph r) {id : Uuid} (hid : ¬ NotSchema w.graph id) :
    run broker crates maps (getSchema id) w =
      (found crates.toCrates ((r.schema id).map (schemaOfRecord id)), w) := by
  have hcall : Program.run (serve broker crates maps) (Program.perform (Call.getSchemaMetadata id.toText)) w =
      _ := run_getSchemaMetadata h (hids id) hid
  have hread : run broker crates maps (registry (Program.perform (Call.getSchemaMetadata id.toText))) w =
      _ := run_registry.trans (by rw [hcall])
  cases hschema : r.schema id with
  | error e =>
    rw [hschema] at hread
    exact run_bind_error hread _
  | ok schema =>
    rw [hschema] at hread
    refine (run_bind_ok hread _).trans ?_
    rw [schemaOfMessage_ofSchema]
    rfl

theorem run_getView (h : Represents w.graph r) (id : Uuid) :
    run broker crates maps (getView id) w =
      (found crates.toCrates ((r.view id).map (viewOfRecord id)), w) := by
  have hcall : Program.run (serve broker crates maps) (Program.perform (Call.getView id.toText)) w = _ :=
    run_getView_request h (hids id)
  have hread : run broker crates maps (registry (Program.perform (Call.getView id.toText))) w = _ :=
    run_registry.trans (by rw [hcall])
  cases hview : r.view id with
  | error e =>
    rw [hview] at hread
    exact run_bind_error hread _
  | ok view =>
    rw [hview] at hread
    exact run_bind_ok hread _

theorem parseId_toText (id : Uuid) : parseId crates id.toText = .ok id := by
  rw [parseId, hids]
  rfl

theorem run_schemas (h : Represents w.graph r) : ∃ entries : List (Uuid × SchemaRegistry.Schema),
    run broker crates maps (schemas crates) w =
      (.ok (entries.map fun entry => schemaOfRecord entry.1 entry.2), w) ∧ Lists entries r.schemas := by
  obtain ⟨stored, hall, hstored⟩ : ∃ stored, SchemaRegistry.run broker
    (SchemaRegistryImpl.getAllSchemas crates) w = _ ∧ _ := run_getAllSchemas_request h
  have hentry (entry : Uuid × SchemaRegistry.Schema) : schemaOfEntry crates
      (entry.1.toText, Message.ofSchema entry.2) = .ok (schemaOfRecord entry.1 entry.2) := by
    rw [schemaOfEntry, parseId_toText hids]
    exact schemaOfMessage_ofSchema _ _
  obtain ⟨entries, hconverted, hlists⟩ : ∃ entries', (maps.order _).mapM _ = _ ∧ _ :=
    mapM_ofEntries hstored hentry
  refine ⟨entries, ?_, hlists⟩
  have hcall : Program.run (serve broker crates maps) (Program.perform Call.getAllSchemas) w =
      (.ok (maps.order (Message.ofEntries Message.ofSchema stored)), w) := by
    show (Except.map maps.order (SchemaRegistry.run broker
      (SchemaRegistryImpl.getAllSchemas crates) w).1, (SchemaRegistry.run broker
        (SchemaRegistryImpl.getAllSchemas crates) w).2) = _
    rw [hall]
    rfl
  have hread : run broker crates maps (registry (Program.perform Call.getAllSchemas)) w = _ :=
    run_registry.trans (by rw [hcall])
  refine (run_connect_bind _).trans ((run_bind_ok hread _).trans ?_)
  rw [hconverted]
  rfl

theorem run_views (h : Represents w.graph r) {id : Uuid} (hid : ¬ NotSchema w.graph id) :
    ∃ entries : List (Uuid × SchemaRegistry.View), run broker crates maps (views crates id) w =
      (found crates.toCrates ((r.schema id).map fun _ =>
        entries.map fun entry => viewOfRecord entry.1 entry.2), w) ∧ Lists entries (r.viewsOf id) := by
  obtain ⟨stored, hall, hstored⟩ : ∃ stored, SchemaRegistry.run broker
    (SchemaRegistryImpl.getAllViewsOfSchema crates id.toText) w = _ ∧ _ :=
      run_getAllViews_request h (hids id) hid
  have hentry (entry : Uuid × SchemaRegistry.View) : viewOfEntry crates
      (entry.1.toText, Message.ofView entry.2) = .ok (viewOfRecord entry.1 entry.2) := by
    rw [viewOfEntry, parseId_toText hids]
    rfl
  obtain ⟨entries, hconverted, hlists⟩ : ∃ entries', (maps.order _).mapM _ = _ ∧ _ :=
    mapM_ofEntries hstored hentry
  refine ⟨entries, ?_, hlists⟩
  have hcall : Program.run (serve broker crates maps)
      (Program.perform (Call.getAllViewsOfSchema id.toText)) w =
        (((r.schema id).map fun _ => maps.order (Message.ofEntries Message.ofView stored)).mapError
          (RegistryError.status crates.toCrates), w) := by
    show (Except.map maps.order (SchemaRegistry.run broker
      (SchemaRegistryImpl.getAllViewsOfSchema crates id.toText) w).1, (SchemaRegistry.run broker
        (SchemaRegistryImpl.getAllViewsOfSchema crates id.toText) w).2) = _
    rw [hall]
    cases r.schema id <;> rfl
  have hread : run broker crates maps
      (registry (Program.perform (Call.getAllViewsOfSchema id.toText))) w = _ :=
    run_registry.trans (by rw [hcall])
  refine (run_connect_bind _).trans ?_
  cases hschema : r.schema id with
  | error e =>
    rw [hschema] at hread
    exact run_bind_error hread _
  | ok schema =>
    rw [hschema] at hread
    refine (run_bind_ok hread _).trans ?_
    rw [hconverted]
    rfl

/-! ### Mutations -/

omit hids in
/-- A mutation sends its request first. -/
theorem run_mutation {request : Request} {f : Response → FieldResult α} {returned : α → Returned}
    (hrun : run broker crates maps (returned <$> (do
      connectToRegistry
      let response ← registry (Program.perform (Call.write request))
      f response)) w = (result, w')) :
    (∃ status, result = .error (refusal status) ∧ SchemaRegistry.run broker
        (SchemaRegistryImpl.handle crates.toCrates request) w = (.error status, w')) ∨
      ∃ response mid, SchemaRegistry.run broker
        (SchemaRegistryImpl.handle crates.toCrates request) w = (.ok response, mid) ∧
          run broker crates maps (returned <$> f response) mid = (result, w') := by
  have hcall : Program.run (serve broker crates maps) (Program.perform (Call.write request)) w =
    SchemaRegistry.run broker (SchemaRegistryImpl.handle crates.toCrates request) w := rfl
  have hsent : run broker crates maps (registry (Program.perform (Call.write request))) w = _ :=
    run_registry.trans (by rw [hcall])
  rw [run_map, run_connect_bind] at hrun
  cases hhandle : SchemaRegistry.run broker (SchemaRegistryImpl.handle crates.toCrates request) w with
  | mk answer mid =>
    rw [hhandle] at hsent
    cases answer with
    | error status =>
      rw [run_bind_error hsent] at hrun
      obtain ⟨rfl, rfl⟩ := Prod.mk.inj hrun
      exact Or.inl ⟨status, rfl, rfl⟩
    | ok response =>
      rw [run_bind_ok hsent] at hrun
      exact Or.inr ⟨response, mid, rfl, (run_map _ _).trans hrun⟩

omit hids in
theorem Operation.not_halfApplied {op : Operation} {request : Request} (hrequest : op.request = some request)
    (g : Graph) : ¬ request.HalfApplied crates.toCrates broker g := by
  cases op <;> cases hrequest <;> try exact not_false
  rename_i id update
  cases htype : update.schemaType with
  | none => exact not_false
  | some t =>
    rintro ⟨hnone, -⟩
    rw [SchemaType.ofI32_toI32] at hnone
    cases hnone

omit hids in
theorem refused (h : Represents w.graph r) {op : Operation} {request : Request} {status : Status}
    (hrequest : op.request = some request) (hfresh : Fresh w.supply w.graph (request.given crates.toCrates))
    (hfails : SchemaRegistry.run broker (SchemaRegistryImpl.handle crates.toCrates request) w =
      (.error status, w')) :
    ∃ r', Answers crates.toCrates r op (.error (refusal status)) r' ∧ Represents w'.graph r' := by
  refine ⟨r, .refused (hrequest ▸ Option.some_ne_none request) status, ?_⟩
  rw [((failed_iff hfresh hfails).mpr (op.not_halfApplied hrequest w.graph)).1]
  exact h

omit hids in
theorem NewSchema.schemaOfRecord_record (new : NewSchema) (id : Uuid) : schemaOfRecord id new.record =
    { id := id, name := new.name, queryAddress := new.queryAddress, topic := new.topic,
      schemaType := new.schemaType } := by
  rw [schemaOfRecord, NewSchema.record, SchemaType.ofRecord_toRecord]

/-- What the end of `update_schema` returns, and the records. -/
theorem answers_updated {id : Uuid} {update : UpdateSchema} (h : Represents w.graph r)
    (hid : ¬ NotSchema w.graph id) (hupdated : (∃ schema, r.schemas id = some schema ∧ Represents w'.graph
      (r.setSchema id (update.applied schema))) ∨ r.schemas id = none ∧ w'.graph = w.graph) :
    ∃ r', Answers crates.toCrates r (.updateSchema id update)
      ((run broker crates maps (Returned.schema <$> getSchema id) w').1) r' ∧
        Represents (run broker crates maps (Returned.schema <$> getSchema id) w').2.graph r' := by
  rw [run_map]
  obtain ⟨schema, hfound, hafter⟩ | ⟨hnone, hsame⟩ := hupdated
  · have hstored : (r.setSchema id (update.applied schema)).schemas id = some (update.applied schema) :=
      Function.update_self ..
    have hschema : HasType w'.graph id .schema := ⟨_, (hafter.schema id _).mpr hstored⟩
    rw [run_getSchema hids hafter fun hnot => hnot.not_schema hschema, Records.schema, hstored]
    exact ⟨_, .updateSchema hfound, hafter⟩
  · have hafter : Represents w'.graph r := hsame ▸ h
    rw [run_getSchema hids hafter (hsame ▸ hid), Records.schema, hnone]
    have hmutation : (Operation.updateSchema id update).request ≠ none := Option.some_ne_none _
    exact ⟨r, .refused hmutation _, hafter⟩

/-- One query or mutation, with the registry to itself. -/
theorem answers (h : Represents w.graph r) (hmaster : w.isMaster = true) {op : Operation}
    (hfresh : ∀ request ∈ op.request, Fresh w.supply w.graph (request.given crates.toCrates))
    (hschemas : ∀ id ∈ op.schemaIds, ¬ NotSchema w.graph id)
    (hrun : run broker crates maps (op.perform crates) w = (result, w')) :
    ∃ r', Answers crates.toCrates r op result r' ∧ Represents w'.graph r' := by
  cases op with
  | addSchema new =>
    have hrequest : (Operation.addSchema new).request = some _ := rfl
    obtain ⟨status, rfl, hfails⟩ | ⟨response, mid, hserved, hrest⟩ := run_mutation hrun
    · exact refused h hrequest (hfresh _ hrequest) hfails
    · have hnew := (hfresh _ hrequest).of_subset (List.nil_subset _)
      obtain ⟨id, rfl, hfree, hafter⟩ := served_addSchema h hnew hserved
      rw [idOf, hids] at hrest
      obtain ⟨rfl, rfl⟩ := Prod.mk.inj hrest
      rw [SchemaType.ofI32_toI32] at hafter
      refine ⟨_, ?_, hafter⟩
      have hanswers : Answers crates.toCrates r (.addSchema new) _ _ := .addSchema hfree
      rw [NewSchema.schemaOfRecord_record] at hanswers
      exact hanswers
  | addSchemaDefinition schemaId newVersion =>
    have hrequest : (Operation.addSchemaDefinition schemaId newVersion).request = some _ := rfl
    obtain ⟨status, rfl, hfails⟩ | ⟨response, mid, hserved, hrest⟩ := run_mutation hrun
    · exact refused h hrequest (hfresh _ hrequest) hfails
    · obtain ⟨rfl, rfl⟩ := Prod.mk.inj hrest
      have hnew := fresh_parsed (parseUuid_eq_ok (hids schemaId)) (hfresh _ hrequest)
      obtain ⟨hafter, hvertex⟩ := served_addSchemaVersion h (hids schemaId) hnew hserved
      refine ⟨r, .addSchemaDefinition fun hnone => hvertex ?_, hafter⟩
      exact h.no_vertex (hschemas schemaId (List.mem_singleton_self _)) hnone
  | addView schemaId newView =>
    have hrequest : (Operation.addView schemaId newView).request = some _ := rfl
    obtain ⟨status, rfl, hfails⟩ | ⟨response, mid, hserved, hrest⟩ := run_mutation hrun
    · exact refused h hrequest (hfresh _ hrequest) hfails
    · have hnew : Fresh w.supply w.graph (schemaId :: (none : Option Uuid).toList) :=
        fresh_parsedView (parseUuid_eq_ok (hids schemaId)) rfl (hfresh _ hrequest)
      obtain ⟨id, rfl, hfound, hfree, hafter⟩ := served_addView h (hids schemaId)
        (hschemas schemaId (List.mem_singleton_self _)) hnew hserved
      rw [idOf, hids] at hrest
      obtain ⟨rfl, rfl⟩ := Prod.mk.inj hrest
      exact ⟨_, .addView hfound hfree, hafter⟩
  | updateView id update =>
    have hrequest : (Operation.updateView id update).request = some _ := rfl
    obtain ⟨status, rfl, hfails⟩ | ⟨response, mid, hserved, hrest⟩ := run_mutation hrun
    · exact refused h hrequest (hfresh _ hrequest) hfails
    · obtain ⟨schemaId, view, hfound, hafter⟩ := served_updateView h (hids id) hserved
      have hafter : Represents mid.graph (r.setView id schemaId (update.applied view)) := hafter
      have hread : (r.setView id schemaId (update.applied view)).view id = .ok (update.applied view) := by
        simp [Records.view, Records.setView]
      rw [run_map, run_getView hids hafter, hread] at hrest
      obtain ⟨rfl, rfl⟩ := Prod.mk.inj hrest
      exact ⟨_, .updateView hfound, hafter⟩
  | updateSchema id update =>
    have hrequest : (Operation.updateSchema id update).request = some _ := rfl
    have hid := hschemas id (List.mem_singleton_self _)
    obtain ⟨status, rfl, hfails⟩ | ⟨response, mid, hserved, hrest⟩ := run_mutation hrun
    · exact refused h hrequest (hfresh _ hrequest) hfails
    · have hnew := fresh_parsed (parseUuid_eq_ok (hids id)) (hfresh _ hrequest)
      have hnumber : update.schemaType.map SchemaType.toI32 =
          (update.schemaType.map SchemaType.toRecord).map SchemaRegistry.SchemaType.toI32 := by
        simp [Function.comp_def]
      rw [hnumber] at hserved
      have hupdated := served_updateSchemaMetadata h (hids id) hid hmaster hnew hserved
      have hafter : ∃ r', Answers _ r _ (run broker crates maps _ mid).1 r' ∧
        Represents (run broker crates maps _ mid).2.graph r' := answers_updated hids h hid hupdated
      rw [hrest] at hafter
      exact hafter
  | schema id =>
    have hread : run broker crates maps (Registry.schema id) w = _ :=
      (run_connect_bind _).trans (run_getSchema hids h (hschemas id (List.mem_singleton_self _)))
    have hrun := (run_map Returned.schema _).symm.trans hrun
    rw [hread] at hrun
    obtain ⟨rfl, rfl⟩ := Prod.mk.inj hrun
    rw [map_found]
    exact ⟨r, .schema, h⟩
  | schemas =>
    obtain ⟨entries, hread, hlists⟩ : ∃ entries, run broker crates maps (schemas crates) w = _ ∧ _ :=
      run_schemas hids h
    have hrun := (run_map Returned.schemas _).symm.trans hrun
    rw [hread] at hrun
    obtain ⟨rfl, rfl⟩ := Prod.mk.inj hrun
    exact ⟨r, .schemas hlists, h⟩
  | view id =>
    have hread : run broker crates maps (Registry.view id) w = _ :=
      (run_connect_bind _).trans (run_getView hids h id)
    have hrun := (run_map Returned.view _).symm.trans hrun
    rw [hread] at hrun
    obtain ⟨rfl, rfl⟩ := Prod.mk.inj hrun
    rw [map_found]
    exact ⟨r, .view, h⟩
  | views schemaId =>
    obtain ⟨entries, hread, hlists⟩ : ∃ entries, run broker crates maps (views crates schemaId) w = _ ∧ _ :=
      run_views hids h (hschemas schemaId (List.mem_singleton_self _))
    have hrun := (run_map Returned.views _).symm.trans hrun
    rw [hread] at hrun
    obtain ⟨rfl, rfl⟩ := Prod.mk.inj hrun
    rw [map_found]
    exact ⟨r, .views hlists, h⟩

end Runs

/-! ## Runs -/

/-- One query or mutation, and what it comes to. -/
structure Asked where
  op : Operation
  result : Except FieldError Returned

/-- A query or a mutation over the database of a Master. -/
def Asks (broker : Broker) (crates : RpcCrates) (maps : MapOrder) (g : Graph) (asked : Asked)
    (g' : Graph) : Prop :=
  ∃ w : World, w.graph = g ∧ w.isMaster = true ∧
    (∀ request ∈ asked.op.request, Fresh w.supply g (request.given crates.toCrates)) ∧
    ∃ w', run broker crates maps (asked.op.perform crates) w = (asked.result, w') ∧ w'.graph = g'

def Asked.Known (g : Graph) (asked : Asked) : Prop := ∀ id ∈ asked.op.schemaIds, ¬ NotSchema g id

section Runs
variable {broker : Broker} {crates : RpcCrates} {maps : MapOrder}

theorem represents_asked (hids : ∀ id : Uuid, crates.parseUuid id.toText = .ok id) (g : Graph) (r : Records)
    (asked : Asked) (g' : Graph) (h : Represents g r) (hasks : Asks broker crates maps g asked g')
    (hknown : asked.Known g) :
    ∃ r', Answers crates.toCrates r asked.op asked.result r' ∧ Represents g' r' := by
  obtain ⟨w, rfl, hmaster, hfresh, w', hrun, rfl⟩ := hasks
  exact answers hids h hmaster hfresh hknown hrun

/-- **Every run of queries and mutations over an empty registry is a run of the records, with the
same results.** -/
theorem api_refines_records {ts : List (Transition Graph Asked)} {g : Graph}
    (hids : ∀ id : Uuid, crates.parseUuid id.toText = .ok id)
    (hrun : Run (Asks broker crates maps) Graph.empty ts g)
    (hknown : ∀ t ∈ ts, t.label.Known t.before) :
    ∃ rs r, Run (fun r asked r' => Answers crates.toCrates r asked.op asked.result r') Records.empty rs r ∧
      rs.map (·.label) = ts.map (·.label) ∧ Represents g r :=
  hrun.simulates represents_empty (represents_asked hids) hknown

end Runs

/-! ### A schema that is added and read -/

def sampleRpcCrates : RpcCrates :=
  { sampleCrates with
    parseUuid := Uuid.parse
    parseVersionReq := fun _ => .ok .any
    serializeJson := fun _ => .ok "\x7b\x7d"
    validate := fun _ _ => [] }

theorem parseUuid_sampleRpc (id : Uuid) : sampleRpcCrates.parseUuid id.toText = .ok id := by
  dsimp only [sampleRpcCrates]
  exact Uuid.parse_toText id

def sampleMaps : MapOrder := { order := fun entries => entries, perm := fun _ => .refl _ }

def sampleNew : NewSchema :=
  { name := "orders", queryAddress := "address", topic := "topic", definition := "\x7b\x7d",
    schemaType := .documentStorage }

/-- The schema has the identifier 1 and its definition 2. -/
def sampleAdded : World :=
  { graph := withSchema sampleRpcCrates.toCrates .empty 1 2 sampleNewSchema.split.1 ⟨sampleNewSchema.definition⟩
    supply := fun n => (sampleWorld .empty 1 2).supply (n + 2)
    isMaster := true
    sent := [.addSchema sampleNewSchema 1]
    acks := 0 }

theorem run_addSample : run sampleBroker sampleRpcCrates sampleMaps (addSchema sampleRpcCrates sampleNew)
    (sampleWorld .empty 1 2) = (.ok (schemaOfRecord 1 sampleNew.record), sampleAdded) := by
  have hfresh : Fresh (sampleWorld .empty 1 2).supply (sampleWorld .empty 1 2).graph
      (none : Option Uuid).toList :=
    ⟨by simp [sampleWorld], by decide, by decide⟩
  have hadd : SchemaRegistry.run sampleBroker (SchemaRegistryImpl.db sampleRpcCrates.toCrates
      (SchemaRegistry.addSchema sampleRpcCrates.toCrates sampleNewSchema none)) (sampleWorld .empty 1 2) =
      (.ok 1, { sampleAdded with sent := [] }) := by
    rw [run_db_eq_ok, SchemaRegistry.run_addSchema _ hfresh]
    rfl
  have hhandle : SchemaRegistry.run sampleBroker (SchemaRegistryImpl.addSchema sampleRpcCrates.toCrates ""
      "orders" "\x7b\x7d" "topic" "address" 0) (sampleWorld .empty 1 2) =
        (.ok (.id (Uuid.toText 1)), sampleAdded) := by
    unfold SchemaRegistryImpl.addSchema
    exact (SchemaRegistry.run_bind_ok hadd _).trans rfl
  have hsent : run sampleBroker sampleRpcCrates sampleMaps (registry (Program.perform (Call.write
      (.addSchema "" "orders" "\x7b\x7d" "topic" "address" 0)))) (sampleWorld .empty 1 2) =
        (.ok (.id (Uuid.toText 1)), sampleAdded) := by
    rw [run_registry]
    exact congrArg (fun answer => (Except.mapError refusal answer.1, answer.2)) hhandle
  refine (run_connect_bind _).trans ((run_bind_ok hsent _).trans ?_)
  rw [idOf, parseUuid_sampleRpc]
  rfl

theorem asks_addSample : Asks sampleBroker sampleRpcCrates sampleMaps Graph.empty
    ⟨.addSchema sampleNew, .ok (.schema (schemaOfRecord 1 sampleNew.record))⟩ sampleAdded.graph := by
  refine ⟨sampleWorld .empty 1 2, rfl, rfl, ?_, sampleAdded, ?_, rfl⟩
  · rintro request ⟨⟩
    have hgiven : sampleRpcCrates.parseUuid "" = .error "invalid length: expected one of [36, 32]" := by
      decide +kernel
    show Fresh _ _ (sampleRpcCrates.parseUuid "").toOption.toList
    rw [hgiven]
    exact ⟨by simp [sampleWorld], by decide, by decide⟩
  · exact (run_map _ _).trans (by rw [run_addSample]; rfl)

theorem vertexAt_sampleAdded : sampleAdded.graph.vertexAt 1 = some sampleNew.record.vertex.stored := by
  refine (vertexAt_withSchema (Graph.vertexAt_empty 1) (Graph.vertexAt_empty 2) (by decide) _ _ 1).trans ?_
  rw [if_neg (by decide), if_pos rfl]
  rfl

theorem not_notSchema_sampleAdded : ¬ NotSchema sampleAdded.graph 1 :=
  fun hnot => hnot.not_schema ⟨_, vertexAt_sampleAdded⟩

theorem asks_sample : Asks sampleBroker sampleRpcCrates sampleMaps sampleAdded.graph
    ⟨.schema 1, .ok (.schema (schemaOfRecord 1 sampleNew.record))⟩ sampleAdded.graph := by
  obtain ⟨r, -, h⟩ := represents_asked parseUuid_sampleRpc _ _ _ _ represents_empty asks_addSample
    (List.forall_mem_nil _)
  have hread : run sampleBroker sampleRpcCrates sampleMaps (getSchema 1) sampleAdded = _ :=
    run_getSchema parseUuid_sampleRpc h not_notSchema_sampleAdded
  rw [Records.schema, (h.schema 1 _).mp vertexAt_sampleAdded] at hread
  refine ⟨sampleAdded, rfl, rfl, by rintro request ⟨⟩, sampleAdded, ?_, rfl⟩
  refine (run_map _ _).trans ?_
  rw [Registry.schema, run_connect_bind, hread]
  rfl

theorem api_refines_records_sample : ∃ ts g,
    Run (Asks sampleBroker sampleRpcCrates sampleMaps) Graph.empty ts g ∧
    ts.map (·.label) = [⟨.addSchema sampleNew, .ok (.schema (schemaOfRecord 1 sampleNew.record))⟩,
      ⟨.schema 1, .ok (.schema (schemaOfRecord 1 sampleNew.record))⟩] ∧
    ∃ rs r, Run (fun r asked r' => Answers sampleRpcCrates.toCrates r asked.op asked.result r')
      Records.empty rs r ∧ rs.map (·.label) = ts.map (·.label) ∧ Represents g r := by
  have hrun := (Run.start.step asks_addSample).step asks_sample
  refine ⟨_, _, hrun, rfl, api_refines_records parseUuid_sampleRpc hrun ?_⟩
  simp only [List.nil_append, List.cons_append, List.forall_mem_cons]
  refine ⟨List.forall_mem_nil _, ?_, List.forall_mem_nil _⟩
  intro id hid
  rw [List.mem_singleton.mp hid]
  exact not_notSchema_sampleAdded

end CommonDataLayer.Api.Registry
