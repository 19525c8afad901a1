import CommonDataLayer.Foundations.Runs
import CommonDataLayer.SchemaRegistry.Resolution

/-! # The history of a schema

The accepted versions of a schema, in the order in which they were accepted, next to the database.

* `History`: the versions on the edges are the accepted ones, which have increasing precedence, so
  the greatest version that a requirement accepts is the last one of the history.
* `accepts_cases`: an operation leaves all versions and definitions as they are, or it adds one
  version that is greater than those of its schema.
* `versionHistory`: over every run from the empty database, a definition is found as it was resolved
  when its version was accepted.
-/
namespace CommonDataLayer.SchemaRegistry
open Interaction PropertyGraph Std TransitionSystem
set_option autoImplicit false

/-! ## Versions in increasing order -/

section Histories
variable {crates : Crates} {g g' : Graph} {id d : Uuid} {accepted found : List (Version × Uuid)}

/-- The version under which a schema has a definition. -/
def versionAt (crates : Crates) (g : Graph) (id d : Uuid) : Option Version :=
  (versionValue g id d).bind crates.versionOfValue

/-- The versions of a schema and their vertices, in the order in which they were accepted. -/
structure History (crates : Crates) (g : Graph) (id : Uuid) (accepted : List (Version × Uuid)) :
    Prop where
  mem (x : Version × Uuid) : x ∈ accepted ↔ versionAt crates g id x.2 = some x.1
  readable (d : Uuid) (value : Value) :
    versionValue g id d = some value → (crates.versionOfValue value).isSome
  increasing : accepted.Pairwise fun a b => compare a.1 b.1 = .lt

theorem History.versions (h : History crates g id accepted) :
    ∃ found, versions crates g id = .ok found ∧ ∀ x, x ∈ found ↔ x ∈ accepted := by
  obtain ⟨found, hfound⟩ := versions_eq_ok_iff.mpr h.readable
  refine ⟨found, hfound, fun x => ?_⟩
  rw [mem_versions hfound, h.mem]
  rfl

/-- The greatest of the versions that are accepted by a requirement is the last one. -/
theorem maxByVersion_filter (hmem : ∀ x, x ∈ found ↔ x ∈ accepted)
    (hincreasing : accepted.Pairwise fun a b => compare a.1 b.1 = .lt) (p : Version × Uuid → Bool) :
    maxByVersion (found.filter p) = (accepted.filter p).getLast? := by
  have hmem (x : Version × Uuid) : x ∈ found.filter p ↔ x ∈ accepted.filter p := by
    rw [List.mem_filter, List.mem_filter, hmem]
  rcases List.eq_nil_or_concat' (accepted.filter p) with hnil | ⟨older, last, hlast⟩
  · rw [hnil] at hmem
    rw [hnil, maxByVersion_eq_none.mpr (List.eq_nil_iff_forall_not_mem.mpr fun x hx => ?_)]
    · rfl
    · exact List.not_mem_nil ((hmem x).mp hx)
  · have hsorted := hincreasing.filter p
    rw [hlast, List.pairwise_append] at hsorted
    rw [hlast] at hmem
    rw [hlast, List.getLast?_concat]
    refine maxByVersion_of_greatest ((hmem last).mpr (by simp)) fun y hy => ?_
    rcases List.mem_append.mp ((hmem y).mp hy) with hy | hy
    · exact Or.inr (hsorted.2.2 y hy last (List.mem_singleton_self _))
    · exact Or.inl (List.mem_singleton.mp hy)

theorem History.mem_versions (h : History crates g id accepted)
    (hfound : SchemaRegistry.versions crates g id = .ok found) (x : Version × Uuid) :
    x ∈ found ↔ x ∈ accepted := by
  obtain ⟨found', hfound', hmem⟩ := h.versions
  rw [hfound, Except.ok.injEq] at hfound'
  rw [hfound', hmem]

/-- The last match of the history. -/
theorem History.latestVersion (h : History crates g id accepted) (req : VersionReq) :
    latestVersion crates g ⟨id, req⟩ =
      match (accepted.filter fun x => req.accepts x.1).getLast? with
      | some x => .ok x
      | none => .error (.noVersionMatchesRequirement ⟨id, req⟩) := by
  obtain ⟨found, hfound, hmem⟩ := h.versions
  have hmax := maxByVersion_filter hmem h.increasing fun x => req.accepts x.1
  cases hlast : (accepted.filter fun x => req.accepts x.1).getLast? with
  | none => simp only [SchemaRegistry.latestVersion, hfound, ok_bind, hmax, hlast]
  | some x => simp only [SchemaRegistry.latestVersion, hfound, ok_bind, hmax, hlast]

theorem History.of_empty (hnone : ∀ d, versionValue g id d = none) : History crates g id [] where
  mem x := by
    rw [versionAt, hnone]
    simp
  readable d value h := by
    rw [hnone] at h
    cases h
  increasing := .nil

theorem History.congr (h : History crates g id accepted)
    (hvalue : ∀ d, versionValue g' id d = versionValue g id d) : History crates g' id accepted where
  mem x := by
    rw [versionAt, hvalue]
    exact h.mem x
  readable d value hd := h.readable d value (hvalue d ▸ hd)
  increasing := h.increasing

/-- A greater version at a new vertex. -/
theorem History.append (h : History crates g id accepted) {version : Version}
    (hvalue : ∀ other, versionValue g' id other =
      if other = d then some (.string (crates.showVersion version)) else versionValue g id other)
    (hnone : versionValue g id d = none) (hgreater : ∀ x ∈ accepted, compare x.1 version = .lt)
    (hparse : crates.parseVersion (crates.showVersion version) = .ok version) :
    History crates g' id (accepted ++ [(version, d)]) where
  mem x := by
    have hold : versionAt crates g id d = none := by rw [versionAt, hnone]; rfl
    have hnew := versionOfValue_show hparse
    rw [List.mem_append, List.mem_singleton, h.mem, versionAt, versionAt, hvalue]
    by_cases hx : x.2 = d
    · rw [if_pos hx, Option.bind_some, hnew, hx, hnone, Option.some.injEq, Prod.ext_iff]
      simp [hx, eq_comm]
    · rw [if_neg hx]
      exact or_iff_left fun heq => hx (congrArg Prod.snd heq)
  readable other value hother := by
    rw [hvalue] at hother
    split at hother
    · rw [← Option.some.inj hother, versionOfValue_show hparse]
      rfl
    · exact h.readable other value hother
  increasing := by
    refine List.pairwise_append.mpr ⟨h.increasing, List.pairwise_singleton _ _, fun x hx y hy => ?_⟩
    rw [List.mem_singleton.mp hy]
    exact hgreater x hx

/-- The check of a new version looks at the whole history. -/
theorem History.greater (h : History crates g id accepted) {version : Version}
    (hgreatest : greatestVersion crates g id version = .ok ()) :
    ∀ x ∈ accepted, compare x.1 version = .lt := by
  obtain ⟨found, hfound, hless⟩ := greatestVersion_eq_ok hgreatest
  exact fun x hx => hless x ((h.mem_versions hfound x).mpr hx)

theorem versionValue_of_free (h : g.vertexAt id = none ∨ g.vertexAt d = none) :
    versionValue g id d = none := by
  rw [versionValue, Graph.edgeAt_eq_none h]
  rfl

end Histories

/-! ## What an operation accepts -/

/-- A version of a schema, with its definition as it was resolved. -/
structure Accepted where
  schemaId : Uuid
  version : Version
  definitionId : Uuid
  definition : Value

def accepts (crates : Crates) (broker : Broker) (w : World) : Operation → List Accepted
  | .addSchema schema newId =>
    match (run broker (addSchema crates schema newId) w).1, fullSchema crates w.graph schema.definition with
    | .ok id, .ok full => [⟨id, .new 1 0 0, firstDefinitionId w.supply newId, full.definition⟩]
    | _, _ => []
  | .addNewVersionOfSchema id schema =>
    match (run broker (addNewVersionOfSchema crates id schema) w).1,
      fullSchema crates w.graph schema.definition with
    | .ok (), .ok full => [⟨id, schema.version, w.supply 0, full.definition⟩]
    | _, _ => []
  | _ => []

/-- The text of the version that an operation stores parses to that version. -/
def Operation.ReadsBack (crates : Crates) : Operation → Prop
  | addSchema _ _ => crates.parseVersion (crates.showVersion (.new 1 0 0)) = .ok (.new 1 0 0)
  | addNewVersionOfSchema _ schema =>
    crates.parseVersion (crates.showVersion schema.version) = .ok schema.version
  | _ => True

section Operations
variable {crates : Crates} {broker : Broker} {g g' : Graph} {w : World} {op : Operation} {id d : Uuid}

/-- The versions and the definitions that were there are the same. -/
structure Unchanged (g g' : Graph) : Prop where
  versionValue (id d : Uuid) : versionValue g' id d = versionValue g id d
  definitionAt (d : Uuid) : g.vertexAt d ≠ none → definitionAt g' d = definitionAt g d

/-- A new version, greater than those of its schema, at a new vertex. -/
structure AddsVersion (crates : Crates) (g g' : Graph) (a : Accepted) : Prop where
  free : g.vertexAt a.definitionId = none
  greatest : greatestVersion crates g a.schemaId a.version = .ok ()
  versionValue (id d : Uuid) : versionValue g' id d =
    if id = a.schemaId ∧ d = a.definitionId then some (.string (crates.showVersion a.version))
    else versionValue g id d
  new : definitionAt g' a.definitionId = some a.definition
  definitionAt (d : Uuid) : g.vertexAt d ≠ none → definitionAt g' d = definitionAt g d

theorem Unchanged.refl (g : Graph) : Unchanged g g := ⟨fun _ _ => rfl, fun _ _ => rfl⟩

theorem unchanged_setVertexProperties {values : List (PropName × Value)}
    (h : .definition ∉ values.map (·.1)) : Unchanged g (g.setVertexProperties id values) where
  versionValue i d := by
    rw [SchemaRegistry.versionValue, Graph.edgeAt_setVertexProperties]
    rfl
  definitionAt _ _ := Graph.propertyAt_setVertexProperties g fun _ => h

theorem unchanged_updateSchemaProperty {name : PropName} (hname : name ≠ .definition) (id : Uuid)
    (value : String) : Unchanged g
      ((((updateSchemaPropertyOutcome g name id value).map (·.2)).toOption).getD g) := by
  cases houtcome : updateSchemaPropertyOutcome g name id value with
  | error e => exact .refl g
  | ok r =>
    obtain ⟨-, rfl⟩ := updateSchemaPropertyOutcome_eq_ok.mp houtcome
    have hvalues : PropName.definition ∉ [(name, Value.string value)].map (·.1) := by
      simpa using hname.symm
    exact unchanged_setVertexProperties hvalues

theorem unchanged_withView {schemaId viewId : Uuid} (hschema : g.vertexAt schemaId ≠ none)
    (hview : g.vertexAt viewId = none) (view : View) : Unchanged g (withView g schemaId viewId view) where
  versionValue id d := by
    have hne : schemaViewKey schemaId viewId ≠ schemaDefinitionKey id d := fun heq => by
      cases congrArg PropertyGraph.EdgeKey.t heq
    rw [SchemaRegistry.versionValue, edgeAt_withView hschema hview, if_neg hne]
    rfl
  definitionAt d hd := by
    have hne : viewId ≠ d := fun heq => hd (heq ▸ hview)
    rw [SchemaRegistry.definitionAt, vertexAt_withView hview, if_neg hne]
    rfl

theorem adds_withDefinition (hid : g.vertexAt id ≠ none) (hd : g.vertexAt d = none)
    {version : Version} (hgreatest : greatestVersion crates g id version = .ok ())
    (definition : Definition) :
    AddsVersion crates g (withDefinition crates g id d version definition)
      ⟨id, version, d, definition.definition⟩ where
  free := hd
  greatest := hgreatest
  versionValue := versionValue_addVersion (edgeAt_withDefinition hid hd version definition)
  new := by
    rw [SchemaRegistry.definitionAt, vertexAt_withDefinition hd, if_pos rfl]
    rfl
  definitionAt other hother := by
    have hne : d ≠ other := fun heq => hother (heq ▸ hd)
    rw [SchemaRegistry.definitionAt, vertexAt_withDefinition hd, if_neg hne]
    rfl

theorem greatestVersion_of_free (hid : g.vertexAt id = none) (version : Version) :
    greatestVersion crates g id version = .ok () := by
  have hnone (d : Uuid) : SchemaRegistry.versionValue g id d = none :=
    versionValue_of_free (Or.inl hid)
  have hempty : History crates g id [] := History.of_empty hnone
  obtain ⟨found, hfound, hmem⟩ := hempty.versions
  have hnil : found = [] := List.eq_nil_iff_forall_not_mem.mpr fun x hx =>
    List.not_mem_nil ((hmem x).mp hx)
  rw [greatestVersion, hfound, hnil]
  rfl

theorem adds_withSchema (hid : g.vertexAt id = none) (hd : g.vertexAt d = none) (hne : id ≠ d)
    (schema : Schema) (definition : Definition) :
    AddsVersion crates g (withSchema crates g id d schema definition)
      ⟨id, .new 1 0 0, d, definition.definition⟩ where
  free := hd
  greatest := greatestVersion_of_free hid _
  versionValue := versionValue_addVersion (edgeAt_withSchema hid hd hne schema definition)
  new := by
    rw [SchemaRegistry.definitionAt, vertexAt_withSchema hid hd hne, if_pos rfl]
    rfl
  definitionAt other hother := by
    have hne' : d ≠ other := fun heq => hother (heq ▸ hd)
    have hne'' : id ≠ other := fun heq => hother (heq ▸ hid)
    rw [SchemaRegistry.definitionAt, vertexAt_withSchema hid hd hne, if_neg hne', if_neg hne'']
    rfl

/-- Whatever is called, nothing changes but for one version that is accepted. -/
theorem accepts_cases (hfresh : Fresh w.supply w.graph op.given) :
    (accepts crates broker w op = [] ∧
      Unchanged w.graph (run broker (op.perform crates) w).2.graph) ∨
    ∃ a, accepts crates broker w op = [a] ∧
      AddsVersion crates w.graph (run broker (op.perform crates) w).2.graph a ∧
      (op.ReadsBack crates →
        crates.parseVersion (crates.showVersion a.version) = .ok a.version) := by
  rw [run_perform w hfresh]
  cases op with
  | addSchema schema newId =>
    have hrun : (run broker (addSchema crates schema newId) w).1 =
        (addSchemaOutcome crates w.supply w.graph schema newId).map (·.1) := by
      rw [run_addSchema w hfresh]
      cases addSchemaOutcome crates w.supply w.graph schema newId <;> rfl
    rw [accepts, hrun, Operation.outcome]
    cases houtcome : addSchemaOutcome crates w.supply w.graph schema newId with
    | error e => exact Or.inl ⟨rfl, .refl _⟩
    | ok r =>
      obtain ⟨full, hfull, hnew, rfl⟩ := addSchemaOutcome_eq_ok.mp houtcome
      rw [hfull]
      refine Or.inr ⟨_, rfl, ?_, fun h => h⟩
      obtain ⟨hd, hne⟩ := firstDefinitionId_free hfresh
      exact adds_withSchema (newVertexId_free hfresh hnew) hd hne _ _
  | addNewVersionOfSchema id schema =>
    have hrun : (run broker (addNewVersionOfSchema crates id schema) w).1 =
        (addNewVersionOutcome crates w.supply w.graph id schema).map (·.1) := by
      rw [run_addNewVersionOfSchema w hfresh]
      cases addNewVersionOutcome crates w.supply w.graph id schema <;> rfl
    rw [accepts, hrun, Operation.outcome]
    cases houtcome : addNewVersionOutcome crates w.supply w.graph id schema with
    | error e => exact Or.inl ⟨rfl, .refl _⟩
    | ok r =>
      obtain ⟨hid, hgreatest, full, hfull, rfl⟩ := addNewVersionOutcome_eq_ok.mp houtcome
      rw [hfull]
      exact Or.inr ⟨_, rfl, adds_withDefinition hid (hfresh.free 0 (by omega)) hgreatest full,
        fun h => h⟩
  | addViewToSchema schemaId view viewId =>
    refine Or.inl ⟨rfl, ?_⟩
    rw [Operation.outcome]
    cases houtcome : addViewOutcome crates w.supply w.graph schemaId view viewId with
    | error e => exact .refl _
    | ok r =>
      obtain ⟨hschema, -, hnew, rfl⟩ := addViewOutcome_eq_ok.mp houtcome
      exact unchanged_withView hschema (newVertexId_free hfresh hnew) view
  | updateSchemaName id newName =>
    exact Or.inl ⟨rfl, unchanged_updateSchemaProperty (by decide) id newName⟩
  | updateSchemaTopic id newTopic =>
    exact Or.inl ⟨rfl, unchanged_updateSchemaProperty (by decide) id newTopic⟩
  | updateSchemaQueryAddress id newQueryAddress =>
    exact Or.inl ⟨rfl, unchanged_updateSchemaProperty (by decide) id newQueryAddress⟩
  | updateSchemaType id newSchemaType =>
    exact Or.inl ⟨rfl, unchanged_updateSchemaProperty (by decide) id newSchemaType.text⟩
  | updateView id view =>
    refine Or.inl ⟨rfl, ?_⟩
    rw [Operation.outcome]
    cases houtcome : updateViewOutcome crates w.graph id view with
    | error e => exact .refl _
    | ok r =>
      obtain ⟨-, -, hr⟩ := updateViewOutcome_eq_ok.mp houtcome
      show Unchanged w.graph r.2
      rw [hr]
      refine unchanged_setVertexProperties ?_
      rw [ViewUpdate.properties]
      cases view.name <;> cases view.jmespath <;> simp

end Operations

/-! ## Runs -/

/-- The database and what was accepted until now. -/
structure Registered where
  graph : Graph
  accepted : List Accepted

def initially : Registered := { graph := .empty, accepted := [] }

/-- One operation, with new identifiers. -/
def Registers (crates : Crates) (broker : Broker) (s : Registered) (op : Operation)
    (s' : Registered) : Prop :=
  ∃ w : World, w.graph = s.graph ∧ Fresh w.supply w.graph op.given ∧
    (run broker (op.perform crates) w).2.graph = s'.graph ∧
    s'.accepted = s.accepted ++ accepts crates broker w op

def Registered.history (s : Registered) (id : Uuid) : List Accepted :=
  s.accepted.filter fun a => a.schemaId = id

/-- Every version resolves to its accepted definition, a requirement to the newest match. -/
structure Resolves (crates : Crates) (broker : Broker) (s : Registered) (id : Uuid) : Prop where
  increasing : (s.history id).Pairwise fun a b => compare a.version b.version = .lt
  attached (w : World) : w.graph = s.graph → ∃ found,
    (run broker (getSchemaVersions crates id) w).1 = .ok found ∧
      ∀ x, x ∈ found ↔ ∃ a ∈ s.history id, x = (a.version, a.definitionId)
  definition (w : World) (req : VersionReq) : w.graph = s.graph →
    (run broker (getSchemaDefinition crates ⟨id, req⟩) w).1 =
      match ((s.history id).filter fun a => req.accepts a.version).getLast? with
      | some a => .ok ⟨a.version, a.definition⟩
      | none => .error (.noVersionMatchesRequirement ⟨id, req⟩)

section Runs
variable {crates : Crates} {broker : Broker} {s s' : Registered} {op : Operation} {id : Uuid}

/-- The versions on the edges are the accepted ones, each with its definition. -/
structure Kept (crates : Crates) (s : Registered) : Prop where
  history (id : Uuid) : History crates s.graph id
    ((s.history id).map fun a => (a.version, a.definitionId))
  definitions : ∀ a ∈ s.accepted, definitionAt s.graph a.definitionId = some a.definition

theorem kept_initially : Kept crates initially where
  history id := History.of_empty fun _ => versionValue_of_free (Or.inl (Graph.vertexAt_empty id))
  definitions := List.forall_mem_nil _

theorem vertexAt_of_definitionAt {g : Graph} {d : Uuid} {value : Value}
    (h : definitionAt g d = some value) : g.vertexAt d ≠ none := by
  intro hnone
  rw [definitionAt, hnone] at h
  cases h

theorem kept_step (s : Registered) (op : Operation) (s' : Registered) (hkept : Kept crates s)
    (h : Registers crates broker s op s') (hversion : op.ReadsBack crates) : Kept crates s' := by
  obtain ⟨w, hw, hfresh, hgraph, haccepted⟩ := h
  have hcases := @accepts_cases crates broker w op hfresh
  rw [hw, hgraph] at hcases
  obtain ⟨graph', accepted'⟩ := s'
  dsimp only at hgraph haccepted hcases
  rcases hcases with ⟨hnone, hunchanged⟩ | ⟨a, hone, hadds, hparse⟩
  · rw [hnone, List.append_nil] at haccepted
    subst haccepted
    refine ⟨fun id => (hkept.history id).congr (hunchanged.versionValue id), fun a ha => ?_⟩
    have hold := hkept.definitions a ha
    exact (hunchanged.definitionAt _ (vertexAt_of_definitionAt hold)).trans hold
  · rw [hone] at haccepted
    subst haccepted
    constructor
    · intro id
      have hfilter : (Registered.history ⟨graph', s.accepted ++ [a]⟩ id) =
          s.history id ++ if a.schemaId = id then [a] else [] := by
        rw [Registered.history, Registered.history, List.filter_append, List.filter_singleton]
        by_cases h : a.schemaId = id <;> simp [h]
      rw [hfilter]
      by_cases hid : a.schemaId = id
      · subst hid
        rw [if_pos rfl, List.map_append]
        refine (hkept.history a.schemaId).append (fun other => ?_)
          (versionValue_of_free (Or.inr hadds.free)) ((hkept.history a.schemaId).greater hadds.greatest)
          (hparse hversion)
        rw [hadds.versionValue]
        simp
      · rw [if_neg hid, List.append_nil]
        refine (hkept.history id).congr fun d => ?_
        rw [hadds.versionValue, if_neg fun h => hid h.1.symm]
    · intro b hb
      rcases List.mem_append.mp hb with hb | hb
      · have hold := hkept.definitions b hb
        exact (hadds.definitionAt _ (vertexAt_of_definitionAt hold)).trans hold
      · rw [List.mem_singleton.mp hb]
        exact hadds.new

theorem Kept.resolves (hkept : Kept crates s) (id : Uuid) : Resolves crates broker s id where
  increasing := List.pairwise_map.mp (hkept.history id).increasing
  attached w hw := by
    obtain ⟨found, hfound, hmem⟩ := (hkept.history id).versions
    refine ⟨found, by rw [run_getSchemaVersions, hw, hfound], fun x => ?_⟩
    rw [hmem, List.mem_map]
    exact exists_congr fun a => and_congr_right fun _ => eq_comm
  definition w req hw := by
    have haccepts : (fun x : Version × Uuid => req.accepts x.1) ∘
        (fun a : Accepted => (a.version, a.definitionId)) = fun a => req.accepts a.version := rfl
    rw [run_getSchemaDefinition, hw, latestDefinition, (hkept.history id).latestVersion,
      List.filter_map, haccepts, List.getLast?_map]
    cases hlast : ((s.history id).filter fun a => req.accepts a.version).getLast? with
    | none => rfl
    | some a =>
      have hmem := (List.mem_filter.mp (List.mem_of_getLast? hlast)).1
      have hdefinition := hkept.definitions a (List.mem_filter.mp hmem).1
      simp only [Option.map_some, ok_bind, hdefinition]

theorem accepted_prefix {ts : List (Transition Registered Operation)}
    (hrun : Run (Registers crates broker) initially ts s) :
    ∀ s' ∈ states initially ts, s'.accepted <+: s.accepted := by
  induction hrun with
  | start => exact List.forall_mem_singleton.mpr List.prefix_rfl
  | step _ next ih =>
    obtain ⟨w, -, -, -, haccepted⟩ := next
    have hstep : _ <+: _ := ⟨_, haccepted.symm⟩
    intro s' hs'
    rw [states, List.map_append, List.map_singleton, ← List.cons_append, List.mem_append] at hs'
    rcases hs' with hs' | hs'
    · exact (ih s' hs').trans hstep
    · rw [List.mem_singleton.mp hs']

/-- In every state of a run from the empty database, the versions of a schema were accepted in
increasing order and every requirement resolves to the newest match, with the definition that was
accepted; and what was accepted stays. -/
theorem versionHistory {ts : List (Transition Registered Operation)}
    (hrun : Run (Registers crates broker) initially ts s)
    (hversions : ∀ t ∈ ts, t.label.ReadsBack crates) :
    ∀ s' ∈ states initially ts, (∀ id, Resolves crates broker s' id) ∧
      s'.accepted <+: s.accepted ∧ ∀ a ∈ s'.accepted,
        definitionAt s'.graph a.definitionId = some a.definition ∧
        definitionAt s.graph a.definitionId = some a.definition := by
  have hall : ∀ s' ∈ states initially ts, Kept crates s' :=
    hrun.invariant_states kept_initially kept_step hversions
  have hlast := hall s hrun.last_mem_states
  intro s' hs'
  have hearly := accepted_prefix hrun s' hs'
  have hkept := hall s' hs'
  exact ⟨hkept.resolves, hearly, fun a ha =>
    ⟨hkept.definitions a ha, hlast.definitions a (hearly.subset ha)⟩⟩

end Runs

/-! ## The sample operations -/

def sampleRegistered : Registered where
  graph := sampleGraph
  accepted := accepts sampleCrates sampleBroker (sampleWorld .empty 2 4)
    (.addSchema sampleNewSchema (some 1))

theorem registers_sampleGraph : Registers sampleCrates sampleBroker initially
    (.addSchema sampleNewSchema (some 1)) sampleRegistered := by
  have hfresh : Fresh (sampleWorld .empty 2 4).supply (Graph.empty : Graph)
      (Operation.addSchema sampleNewSchema (some 1)).given :=
    ⟨by simp [sampleWorld], by decide, by decide⟩
  exact ⟨sampleWorld .empty 2 4, rfl, hfresh, run_perform _ hfresh, rfl⟩

theorem readsBack_sample : sampleCrates.parseVersion (sampleCrates.showVersion (.new 1 0 0)) =
    .ok (.new 1 0 0) := by
  have htext : sampleCrates.showVersion (.new 1 0 0) = "1.0.0" := by decide
  rw [htext]
  simp [sampleCrates]

theorem readsBack_newer : sampleCrates.parseVersion (sampleCrates.showVersion (.new 2 0 0)) =
    .ok (.new 2 0 0) := by
  have htext : sampleCrates.showVersion (.new 2 0 0) = "2.0.0" := by decide
  rw [htext]
  simp [sampleCrates]

theorem readsBack_sampleOperations : ∀ op ∈ sampleOperations, op.ReadsBack sampleCrates := by
  simp [sampleOperations, Operation.ReadsBack, readsBack_sample, readsBack_newer]

def registerNext (s : Registered) (op : Operation) : Option Registered :=
  (performNext s.graph op).map fun g =>
    ⟨g, s.accepted ++ accepts sampleCrates sampleBroker (nextWorld s.graph) op⟩

theorem registers_next {s s' : Registered} {op : Operation} (h : registerNext s op = some s') :
    Registers sampleCrates sampleBroker s op s' := by
  obtain ⟨g, hg, rfl⟩ := Option.map_eq_some_iff.mp h
  obtain ⟨hfresh, hg⟩ := Option.ite_none_right_eq_some.mp hg
  exact ⟨nextWorld s.graph, rfl, hfresh, Option.some.inj hg, rfl⟩

def sampleFirst : Accepted := ⟨1, .new 1 0 0, 100, .object []⟩
def sampleSecond : Accepted := ⟨1, .new 2 0 0, 102, .object [("title", .string "order")]⟩

/-- The versions with the major number 1. -/
def sampleReq : VersionReq := { text := "^1", accepts := fun version => version.major == 1 }

/-- Of three versions two were accepted, and the requirement matches the older one. -/
theorem versionHistory_sampleOperations : ∃ ts s,
    Run (Registers sampleCrates sampleBroker) initially ts s ∧ ts.map (·.label) = sampleOperations ∧
    s.history 1 = [sampleFirst, sampleSecond] ∧
    (∀ w : World, w.graph = s.graph → (run sampleBroker (getSchemaDefinition sampleCrates ⟨1, sampleReq⟩) w).1 =
      .ok ⟨sampleFirst.version, sampleFirst.definition⟩) ∧
    ∀ s' ∈ states initially ts, (∀ id, Resolves sampleCrates sampleBroker s' id) ∧
      s'.accepted <+: s.accepted ∧ ∀ a ∈ s'.accepted,
        definitionAt s'.graph a.definitionId = some a.definition ∧
        definitionAt s.graph a.definitionId = some a.definition := by
  have hlast : (sampleOperations.foldlM registerNext initially).map (fun s => s.history 1) =
      some [sampleFirst, sampleSecond] := by rfl
  obtain ⟨s, hs, hhistory⟩ := Option.map_eq_some_iff.mp hlast
  obtain ⟨ts, hsteps, hlabels⟩ := Run.of_steps hs
  have hrun : Run (Registers sampleCrates sampleBroker) initially ts s :=
    hsteps.mono fun _ _ _ => registers_next
  have hall := versionHistory hrun (forall_label hlabels readsBack_sampleOperations)
  refine ⟨ts, s, hrun, hlabels, hhistory, fun w hw => ?_, hall⟩
  have hdefinition := ((hall s hrun.last_mem_states).1 1).definition w sampleReq hw
  rw [hhistory] at hdefinition
  exact hdefinition

end CommonDataLayer.SchemaRegistry
