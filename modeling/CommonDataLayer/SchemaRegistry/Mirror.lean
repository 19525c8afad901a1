import CommonDataLayer.SchemaRegistry.Commutation
import CommonDataLayer.SchemaRegistry.FailedRequests
import CommonDataLayer.SchemaRegistry.VersionHistory

/-! # Registries that differ in the identifiers of definitions

Every node draws the identifiers of its `DEFINITION` vertices itself. A graph mirrors another one
when it becomes the other by a renaming that moves definitions only (`Mirrors`).

* `History.renamed`, `latestValue_renamed`: a renamed graph has the same versions, and a schema in
  it the same latest definition.
* `Mirrors.ready`: an event that a registry takes, its mirror takes too.
* `Mirrors.write`: and both are mirrors again, whatever identifiers they draw.
-/
namespace CommonDataLayer.SchemaRegistry
open Interaction PropertyGraph Std
set_option autoImplicit false

/-- The second graph is the first one with definitions renamed; what the renaming moves is a
definition in one of them, and nothing else in the first. -/
structure Mirrors (σ : Equiv.Perm Uuid) (g g' : Graph) : Prop where
  iso : Graph.Iso σ g g'
  moved : ∀ i, σ i ≠ i → HasType g i .definition ∨ HasType g' i .definition
  kept : ∀ i vertex, g.vertexAt i = some vertex → vertex.t ≠ .definition → σ i = i

/-- The versions of each schema have increasing precedence, and no edge leaves a definition. -/
structure Orderly (crates : Crates) (g : Graph) : Prop where
  history : ∀ id, ∃ accepted, History crates g id accepted
  leaves : ∀ key, g.edgeAt key ≠ none → ¬ HasType g key.outboundId .definition

section Renamed
variable {crates : Crates} {g g' : Graph} {σ : Equiv.Perm Uuid} {id i d : Uuid}
  {accepted : List (Version × Uuid)}

theorem Mirrors.eqUpToDefinitions (h : Mirrors σ g g') : EqUpToDefinitions g g' :=
  ⟨σ, h.iso, h.kept⟩

theorem mirrors_refl (g : Graph) : Mirrors (Equiv.refl Uuid) g g :=
  ⟨.refl g, fun _ hi => absurd rfl hi, fun _ _ _ _ => rfl⟩

theorem orderly_empty : Orderly crates (Graph.empty : Graph) where
  history _ := ⟨[], History.of_empty fun _ => versionValue_of_free (Or.inl (Graph.vertexAt_empty _))⟩
  leaves _ h := absurd (Graph.edgeAt_empty _) h

/-- An identifier that names no definition keeps its name. -/
theorem Mirrors.fixed (h : Mirrors σ g g') (hi : ¬ HasType g i .definition)
    (hi' : ¬ HasType g' i .definition) : σ i = i := by
  by_contra hmoved
  exact (h.moved i hmoved).elim hi hi'

/-! ## Versions -/

theorem versionValue_renamed (hiso : Graph.Iso σ g g') (hid : σ id = id) (d : Uuid) :
    versionValue g' id (σ d) = versionValue g id d := by
  have hedge := hiso.edgeAt (schemaDefinitionKey id d)
  rw [PropertyGraph.EdgeKey.map, schemaDefinitionKey] at hedge
  dsimp only at hedge
  rw [hid] at hedge
  rw [versionValue, versionValue, schemaDefinitionKey, hedge]
  rfl

/-- The history has the vertices renamed. -/
theorem History.renamed (h : History crates g id accepted) (hiso : Graph.Iso σ g g')
    (hid : σ id = id) :
    History crates g' id (accepted.map fun x => (x.1, σ x.2)) where
  mem x := by
    obtain ⟨version, v⟩ := x
    obtain ⟨d, rfl⟩ := σ.surjective v
    rw [versionAt, versionValue_renamed hiso hid, ← versionAt, ← h.mem (version, d), List.mem_map]
    constructor
    · rintro ⟨⟨version', d'⟩, hmem, heq⟩
      obtain ⟨rfl, hd⟩ := Prod.mk.inj heq
      have hd : d' = d := σ.injective hd
      exact hd ▸ hmem
    · exact fun hmem => ⟨(version, d), hmem, rfl⟩
  readable v value hv := by
    obtain ⟨d, rfl⟩ := σ.surjective v
    rw [versionValue_renamed hiso hid] at hv
    exact h.readable d value hv
  increasing := List.pairwise_map.mpr h.increasing

theorem History.greatestVersion_eq_ok (h : History crates g id accepted) {version : Version} :
    greatestVersion crates g id version = .ok () ↔ ∀ x ∈ accepted, compare x.1 version = .lt := by
  refine ⟨h.greater, fun hless => ?_⟩
  obtain ⟨found, hfound, hmem⟩ := h.versions
  rw [greatestVersion, hfound, ok_bind]
  cases hmax : maxByVersion found with
  | none => rfl
  | some best =>
    have hbest := hless best ((hmem best).mp (le_maxByVersion hmax).1)
    dsimp only
    rw [hbest]
    rfl

theorem greatestVersion_renamed (h : History crates g id accepted) (hiso : Graph.Iso σ g g')
    (hid : σ id = id) {version : Version} (hgreatest : greatestVersion crates g id version = .ok ()) :
    greatestVersion crates g' id version = .ok () := by
  refine (h.renamed hiso hid).greatestVersion_eq_ok.mpr fun x hx => ?_
  obtain ⟨y, hy, rfl⟩ := List.mem_map.mp hx
  exact h.greater hgreatest y hy

theorem definitionAt_renamed (hiso : Graph.Iso σ g g') (d : Uuid) :
    definitionAt g' (σ d) = definitionAt g d := by
  rw [definitionAt, definitionAt, hiso.vertexAt]

theorem latestValue_renamed (h : History crates g id accepted) (hiso : Graph.Iso σ g g')
    (hid : σ id = id) : latestValue crates g' id = latestValue crates g id := by
  have hlast := h.latestVersion .any
  have hlast' := (h.renamed hiso hid).latestVersion .any
  have hall (l : List (Version × Uuid)) : l.filter (fun x => VersionReq.any.accepts x.1) = l :=
    List.filter_eq_self.mpr fun _ _ => rfl
  rw [hall] at hlast hlast'
  rw [List.getLast?_map] at hlast'
  rw [latestValue, latestValue, latestDefinition, latestDefinition, VersionedUuid.any, hlast, hlast']
  cases accepted.getLast? with
  | none => rfl
  | some x => simp only [Option.map_some, ok_bind, definitionAt_renamed hiso]

end Renamed

/-! ## Events -/

section Events
variable {crates : Crates} {g g' : Graph} {σ : Equiv.Perm Uuid} {event : ReplicationEvent}
  {full : Definition} {d d' : Uuid}

theorem latestValue_of_retrieve {ids : List (String × Uuid)} {defs defs' : List (String × Value)}
    (h : retrieve crates g ids defs = .ok defs') :
    ∀ entry ∈ ids, ∃ value, latestValue crates g entry.2 = .ok value := by
  induction ids generalizing defs with
  | nil => exact List.forall_mem_nil _
  | cons entry ids ih =>
    rw [retrieve_cons] at h
    obtain ⟨value, hvalue, hrest⟩ := bind_eq_ok.mp h
    exact List.forall_mem_cons.mpr ⟨⟨value, hvalue⟩, ih hrest⟩

/-- What a resolved definition refers to has a latest definition. -/
theorem latestValue_of_references {definition : Value}
    (h : fullSchema crates g definition = .ok full) {id : Uuid}
    (hid : id ∈ references crates definition) : ∃ value, latestValue crates g id = .ok value := by
  obtain ⟨resolved, hresolved, -⟩ := bind_eq_ok.mp h
  unfold references at hid
  unfold resolve at hresolved
  cases hdefs : definitionsOf definition with
  | none =>
    rw [hdefs] at hid
    cases hid
  | some defs =>
    rw [hdefs] at hid hresolved
    obtain ⟨defs', hretrieve, -⟩ := bind_eq_ok.mp hresolved
    obtain ⟨entry, hentry, rfl⟩ := List.mem_map.mp hid
    exact latestValue_of_retrieve hretrieve entry hentry

theorem Orderly.not_definition (h : Orderly crates g) {id : Uuid} {value : Value}
    (hvalue : latestValue crates g id = .ok value) :
    g.vertexAt id ≠ none ∧ ¬ HasType g id .definition := by
  obtain ⟨found, x, hfound, hmax, -⟩ := latestValue_eq_ok.mp hvalue
  have hx := (le_maxByVersion hmax).1
  refine ⟨(vertices_of_versions hfound hx).1, ?_⟩
  obtain ⟨text, htext, -⟩ := Option.bind_eq_some_iff.mp ((mem_versions hfound).mp hx)
  obtain ⟨props, hprops, -⟩ := Option.bind_eq_some_iff.mp htext
  exact h.leaves (schemaDefinitionKey id x.2) (hprops ▸ Option.some_ne_none _)

/-- A definition resolves to the same in a mirror. -/
theorem Mirrors.fullSchema (h : Mirrors σ g g') (horderly : Orderly crates g) {definition : Value}
    (hfull : SchemaRegistry.fullSchema crates g definition = .ok full) :
    SchemaRegistry.fullSchema crates g' definition = .ok full := by
  rw [← hfull]
  refine fullSchema_congr fun id hid => ?_
  obtain ⟨value, hvalue⟩ := latestValue_of_references hfull hid
  obtain ⟨hexists, hnot⟩ := horderly.not_definition hvalue
  obtain ⟨vertex, hvertex⟩ := Option.ne_none_iff_exists'.mp hexists
  have hfixed : σ id = id := h.kept id vertex hvertex fun ht => hnot ⟨vertex.props, by
    rw [hvertex, ← ht]⟩
  obtain ⟨accepted, hhistory⟩ := horderly.history id
  exact latestValue_renamed hhistory h.iso hfixed

/-- An event that names nothing that the renaming moves is taken by the mirror as well. -/
theorem Mirrors.ready (h : Mirrors σ g g') (horderly : Orderly crates g)
    (hready : event.Ready crates g full) (hfixed : ∀ i ∈ event.given, σ i = i) :
    event.Ready crates g' full := by
  have hsame {i : Uuid} (hi : i ∈ event.given) : g'.vertexAt i = g.vertexAt i := by
    have hvertex := h.iso.vertexAt i
    rwa [hfixed i hi] at hvertex
  cases event with
  | addSchema schema id =>
    exact ⟨h.fullSchema horderly hready.1, (hsame List.mem_cons_self).trans hready.2⟩
  | addSchemaVersion id newVersion =>
    obtain ⟨accepted, hhistory⟩ := horderly.history id
    refine ⟨?_, ?_, h.fullSchema horderly hready.2.2⟩
    · rw [hsame List.mem_cons_self]
      exact hready.1
    · exact greatestVersion_renamed hhistory h.iso (hfixed id List.mem_cons_self) hready.2.1
  | updateSchemaMetadata id name topic queryAddress schemaType =>
    intro hne
    rw [hsame List.mem_cons_self]
    exact hready hne
  | addViewToSchema schemaId view viewId =>
    refine ⟨?_, hready.2.1, (hsame (List.mem_cons_of_mem _ List.mem_cons_self)).trans hready.2.2⟩
    rw [hsame List.mem_cons_self]
    exact hready.1
  | updateView id view =>
    have hview : viewAt g' id = viewAt g id := by rw [viewAt, viewAt, hsame List.mem_cons_self]
    exact ⟨hview ▸ hready.1, hready.2⟩

/-! ## What both write -/

theorem hasType_write (hready : event.Ready crates g full) (hd : event.Draws g event.given d)
    {i : Uuid} {t : VertexType} (h : HasType g i t) : HasType (event.write crates d full g) i t := by
  obtain ⟨props, hprops⟩ := h
  exact ⟨_, ReplicationEvent.vertexAt_write_of_some hready hd hprops⟩

/-- A definition was one before, or is the new one. -/
theorem hasType_of_write (hready : event.Ready crates g full) (hd : event.Draws g event.given d)
    {i : Uuid} (h : HasType (event.write crates d full g) i .definition) :
    HasType g i .definition ∨ event.definition ≠ none ∧ i = d := by
  obtain ⟨props, hprops⟩ := h
  cases hi : g.vertexAt i with
  | some vertex =>
    rw [ReplicationEvent.vertexAt_write_of_some hready hd hi, Option.some.injEq] at hprops
    have ht : vertex.t = .definition := congrArg Vertex.t hprops
    exact Or.inl ⟨vertex.props, by rw [hi, ← ht]⟩
  | none =>
    rw [ReplicationEvent.vertexAt_write hready hd, hi] at hprops
    by_cases htouched : i ∈ event.touched d
    · rcases ReplicationEvent.mem_touched htouched with hnew | hcreates | hrequires
      · exact Or.inr hnew
      · cases event with
        | addSchema schema id =>
          cases hcreates
          by_cases heq : d = i
          · exact Or.inr ⟨Option.some_ne_none _, heq.symm⟩
          · rw [ReplicationEvent.vertexAfter, if_neg heq, if_pos rfl] at hprops
            cases hprops
        | addViewToSchema schemaId view viewId =>
          cases hcreates
          rw [ReplicationEvent.vertexAfter, if_pos rfl] at hprops
          cases hprops
        | _ => cases hcreates
      · exact absurd hi (hready.requires hrequires)
    · rw [ReplicationEvent.vertexAfter_of_notMem htouched] at hprops
      cases hprops

/-- The renaming for what was there also fits the two new definitions. -/
theorem Mirrors.swapped (h : Mirrors σ g g') (hd : g.vertexAt d = none)
    (hd' : g'.vertexAt d' = none) :
    Graph.Iso (σ.trans (Equiv.swap (σ d) d')) g g' := by
  refine h.iso.trans (.of_fresh fun i hi => ?_)
  by_cases hleft : i = σ d
  · rw [hleft, h.iso.vertexAt, hd]
  · by_cases hright : i = d'
    · rw [hright, hd']
    · exact absurd (Equiv.swap_apply_of_ne_of_ne hleft hright) hi

/-- A renaming that fits the graphs before the event, and what it moves. -/
theorem Mirrors.written {τ : Equiv.Perm Uuid} (hiso : Graph.Iso τ g g')
    (hfixed : ∀ i ∈ event.given, τ i = i) (hdraws : event.definition ≠ none → τ d = d')
    (hready : event.Ready crates g full) (hd : event.Draws g event.given d)
    (hmoved : ∀ i, τ i ≠ i → HasType (event.write crates d full g) i .definition ∨
      HasType (event.write crates d' full g') i .definition)
    (hkept : ∀ i vertex, g.vertexAt i = some vertex → vertex.t ≠ .definition → τ i = i) :
    Mirrors τ (event.write crates d full g) (event.write crates d' full g') where
  iso := by
    have hwrite : Graph.Iso τ (event.write crates d full g) (event.write crates (τ d) full g') :=
      ReplicationEvent.iso_write hiso hfixed
    by_cases hnone : event.definition = none
    · rwa [ReplicationEvent.write_noDefinition hnone (τ d) d' full full] at hwrite
    · rwa [hdraws hnone] at hwrite
  moved := hmoved
  kept i vertex hi ht := by
    by_cases hgiven : i ∈ event.given
    · exact hfixed i hgiven
    · rcases ReplicationEvent.vertexAt_write_cases hready hd hgiven with hsame | ⟨vertex', hi', ht'⟩
      · exact hkept i vertex (hsame ▸ hi) ht
      · rw [hi, Option.some.injEq] at hi'
        exact absurd (hi' ▸ ht') ht

/-- Both take the event and are mirrors again. -/
theorem Mirrors.write (h : Mirrors σ g g') (hready : event.Ready crates g full)
    (hready' : event.Ready crates g' full) (hd : event.Draws g event.given d)
    (hd' : event.Draws g' event.given d') (hnamed : ∀ i ∈ event.given, ¬ HasType g i .definition)
    (hnamed' : ∀ i ∈ event.given, ¬ HasType g' i .definition) :
    ∃ τ, Mirrors τ (event.write crates d full g) (event.write crates d' full g') := by
  have hfixed (i : Uuid) (hi : i ∈ event.given) : σ i = i := h.fixed (hnamed i hi) (hnamed' i hi)
  have hstay (i : Uuid) (hi : σ i ≠ i) : HasType (event.write crates d full g) i .definition ∨
      HasType (event.write crates d' full g') i .definition :=
    (h.moved i hi).imp (hasType_write hready hd) (hasType_write hready' hd')
  by_cases hnone : event.definition = none
  · exact ⟨σ, .written h.iso hfixed (fun hne => absurd hnone hne) hready hd hstay h.kept⟩
  obtain ⟨hfree, hnew⟩ := hd hnone
  obtain ⟨hfree', hnew'⟩ := hd' hnone
  have hswap {i : Uuid} (hi : i ≠ d) (hi' : i ≠ d') (hσ : σ i = i) :
      σ.trans (Equiv.swap (σ d) d') i = i := by
    have hne : i ≠ σ d := fun heq => hi (σ.injective (hσ.trans heq))
    rw [Equiv.trans_apply, hσ, Equiv.swap_apply_of_ne_of_ne hne hi']
  refine ⟨σ.trans (Equiv.swap (σ d) d'), .written (h.swapped hfree hfree') (fun i hi => ?_)
    (fun _ => Equiv.swap_apply_left _ _) hready hd (fun i hi => ?_) fun i vertex hi ht => ?_⟩
  · exact hswap (fun heq => hnew (heq ▸ hi)) (fun heq => hnew' (heq ▸ hi)) (hfixed i hi)
  · by_cases hσ : σ i = i
    · by_cases hleft : i = d
      · rw [hleft]
        exact Or.inl ⟨_, ReplicationEvent.vertexAt_write_definition hready hd hnone⟩
      · have hright : i = d' := by_contra fun hne => hi (hswap hleft hne hσ)
        rw [hright]
        exact Or.inr ⟨_, ReplicationEvent.vertexAt_write_definition hready' hd' hnone⟩
    · exact hstay i hσ
  · have hσ := h.kept i vertex hi ht
    refine hswap (fun heq => ?_) (fun heq => ?_) hσ
    · rw [heq, hfree] at hi
      cases hi
    · have hsame := h.iso.vertexAt i
      rw [hσ, hi, heq, hfree'] at hsame
      cases hsame

/-! ## The order of the graph -/

/-- The version on an edge afterwards. -/
theorem versionValue_write (hready : event.Ready crates g full) (hd : event.Draws g event.given d)
    (hnone : event.definition = none) (id v : Uuid) :
    versionValue (event.write crates d full g) id v = versionValue g id v := by
  rw [versionValue, ReplicationEvent.edgeAt_write hready hd,
    ReplicationEvent.edgeAfter_of_noDefinition hnone rfl]
  rfl

theorem Orderly.write (h : Orderly crates g) (hready : event.Ready crates g full)
    (hd : event.Draws g event.given d) (hnamed : ∀ i ∈ event.given, ¬ HasType g i .definition)
    (hfirst : crates.parseVersion (crates.showVersion (.new 1 0 0)) = .ok (.new 1 0 0))
    (hversion : event.ReadsBack crates) : Orderly crates (event.write crates d full g) where
  history id := by
    obtain ⟨accepted, hhistory⟩ := h.history id
    have hadded {version : Version} (schemaId : Uuid)
        (hvalue : ∀ i v, versionValue (event.write crates d full g) i v =
          if i = schemaId ∧ v = d then some (.string (crates.showVersion version))
          else versionValue g i v) (hfree : g.vertexAt d = none)
        (hgreatest : greatestVersion crates g schemaId version = .ok ())
        (hparse : crates.parseVersion (crates.showVersion version) = .ok version) :
        ∃ accepted, History crates (event.write crates d full g) id accepted := by
      by_cases hid : id = schemaId
      · subst hid
        have hafter (other : Uuid) : versionValue (event.write crates d full g) id other =
            if other = d then some (.string (crates.showVersion version))
            else versionValue g id other := by
          rw [hvalue]
          simp
        exact ⟨_, hhistory.append hafter (versionValue_of_free (Or.inr hfree))
          (hhistory.greater hgreatest) hparse⟩
      · refine ⟨accepted, hhistory.congr fun v => ?_⟩
        rw [hvalue, if_neg fun hboth => hid hboth.1]
    cases event with
    | addSchema schema schemaId =>
      obtain ⟨hfree, hgiven⟩ := hd (Option.some_ne_none _)
      have hne : schemaId ≠ d := fun heq => hgiven (heq ▸ List.mem_cons_self)
      have hadds : AddsVersion crates g (withSchema crates g schemaId d schema.split.1 full) _ :=
        adds_withSchema hready.2 hfree hne schema.split.1 full
      exact hadded schemaId hadds.versionValue hfree hadds.greatest hfirst
    | addSchemaVersion schemaId newVersion =>
      obtain ⟨hfree, -⟩ := hd (Option.some_ne_none _)
      have hadds := adds_withDefinition hready.1 hfree hready.2.1 full
      exact hadded schemaId hadds.versionValue hfree hready.2.1 hversion
    | updateSchemaMetadata => exact ⟨accepted, hhistory.congr (versionValue_write hready hd rfl id)⟩
    | addViewToSchema => exact ⟨accepted, hhistory.congr (versionValue_write hready hd rfl id)⟩
    | updateView => exact ⟨accepted, hhistory.congr (versionValue_write hready hd rfl id)⟩
  leaves key hkey htype := by
    have hout : ¬ HasType g key.outboundId .definition := by
      by_cases hold : g.edgeAt key = none
      · have hgiven : key.outboundId = event.key := by
          by_contra hne
          rw [ReplicationEvent.edgeAt_write hready hd, ReplicationEvent.edgeAfter_of_ne hne] at hkey
          exact hkey hold
        rw [hgiven]
        exact hnamed event.key ReplicationEvent.key_mem_given
      · exact h.leaves key hold
    rcases hasType_of_write hready hd htype with hbefore | ⟨hdefinition, hnew⟩
    · exact hout hbefore
    · obtain ⟨hfree, hgiven⟩ := hd hdefinition
      by_cases hold : key.outboundId = event.key
      · exact hgiven (hnew ▸ hold ▸ ReplicationEvent.key_mem_given)
      · rw [ReplicationEvent.edgeAt_write hready hd, ReplicationEvent.edgeAfter_of_ne hold] at hkey
        exact (Graph.endpoints_of_edgeAt hkey).1 (hnew ▸ hfree)

end Events
end CommonDataLayer.SchemaRegistry
