import Mathlib.Data.List.Nodup
import CommonDataLayer.SchemaRegistry.Operations

/-! # What a definition resolves to

`build_full_schema` replaces the identifiers in a definition by the latest definitions of the
schemas they name, as these are at the time of the call.

* `fullSchema_congr`: the result depends on the latest definitions of these schemas only.
* `latestValue_of_fullSchema`: and it shows what they are.
* `latestValue_withDefinition`: a new version of a schema is its latest definition.
-/
namespace CommonDataLayer.SchemaRegistry
open Interaction PropertyGraph Std
set_option autoImplicit false

variable {crates : Crates} {g g' : Graph} {id d : Uuid}

/-! ## The greatest version -/

theorem foldl_greatest (first : Version × Uuid) (rest : List (Version × Uuid)) :
    let best := rest.foldl (fun best x => if (compare best.1 x.1).isGT then best else x) first
    best ∈ first :: rest ∧ ∀ y ∈ first :: rest, (compare y.1 best.1).isLE := by
  induction rest generalizing first with
  | nil =>
    refine ⟨List.mem_singleton_self _, fun y hy => ?_⟩
    rw [List.mem_singleton.mp hy]
    exact ReflOrd.isLE_rfl
  | cons x rest ih =>
    dsimp only [List.foldl_cons]
    cases hgt : (compare first.1 x.1).isGT with
    | true =>
      obtain ⟨hmem, hle⟩ := ih first
      refine ⟨List.mem_cons.mpr ((List.mem_cons.mp hmem).imp_right (List.mem_cons_of_mem x)), ?_⟩
      have hx : (compare x.1 first.1).isLE := by
        rw [OrientedOrd.eq_swap, Ordering.isLE_swap, Ordering.isGE_eq_isGT_or_isEq, hgt]
        rfl
      have hfirst := hle first List.mem_cons_self
      intro y hy
      rcases List.mem_cons.mp hy with rfl | hy
      · exact hfirst
      rcases List.mem_cons.mp hy with rfl | hy
      · exact TransOrd.isLE_trans hx hfirst
      · exact hle y (List.mem_cons_of_mem _ hy)
    | false =>
      obtain ⟨hmem, hle⟩ := ih x
      refine ⟨List.mem_cons_of_mem _ hmem, fun y hy => ?_⟩
      rcases List.mem_cons.mp hy with rfl | hy
      · refine TransOrd.isLE_trans ?_ (hle x List.mem_cons_self)
        cases hcompare : compare y.1 x.1 with
        | lt => rfl
        | eq => rfl
        | gt =>
          rw [hcompare] at hgt
          cases hgt
      · exact hle y hy

theorem maxByVersion_eq_none {l : List (Version × Uuid)} : maxByVersion l = none ↔ l = [] := by
  cases l <;> simp [maxByVersion]

theorem le_maxByVersion {l : List (Version × Uuid)} {x : Version × Uuid}
    (h : maxByVersion l = some x) : x ∈ l ∧ ∀ y ∈ l, (compare y.1 x.1).isLE := by
  cases l with
  | nil => cases h
  | cons first rest =>
    rw [maxByVersion, Option.some.injEq] at h
    rw [← h]
    exact foldl_greatest first rest

theorem maxByVersion_of_greatest {l : List (Version × Uuid)} {x : Version × Uuid} (hx : x ∈ l)
    (h : ∀ y ∈ l, y = x ∨ compare y.1 x.1 = .lt) : maxByVersion l = some x := by
  cases hmax : maxByVersion l with
  | none =>
    rw [maxByVersion_eq_none.mp hmax] at hx
    cases hx
  | some m =>
    obtain ⟨hm, hle⟩ := le_maxByVersion hmax
    rcases h m hm with rfl | hlt
    · rfl
    · have hxm := TransCmp.lt_of_isLE_of_lt (hle x hx) hlt
      rw [ReflOrd.compare_self] at hxm
      cases hxm

/-! ## The versions of a schema -/

/-- The version on the edge from a schema to a definition. -/
def versionValue (g : Graph) (id d : Uuid) : Option Value :=
  (g.edgeAt (schemaDefinitionKey id d)).bind (· .version)

/-- What an edge with a version adds to the versions. -/
theorem versionValue_addVersion {d : Uuid} {version : Version}
    (hedge : ∀ key, g'.edgeAt key = if schemaDefinitionKey id d = key then
      some (Graph.propsOf (versionProperties crates version)) else g.edgeAt key) (i other : Uuid) :
    versionValue g' i other = if i = id ∧ other = d then
      some (.string (crates.showVersion version)) else versionValue g i other := by
  rw [versionValue, hedge]
  by_cases h : i = id ∧ other = d
  · obtain ⟨rfl, rfl⟩ := h
    rw [if_pos rfl, if_pos ⟨rfl, rfl⟩]
    rfl
  · rw [if_neg h, if_neg fun heq => h ?_]
    · rfl
    · obtain ⟨hout, -, hin⟩ := PropertyGraph.EdgeKey.mk.inj heq
      exact ⟨hout.symm, hin.symm⟩

/-- A version that reads back is read from the text that is stored. -/
theorem versionOfValue_show {version : Version}
    (hparse : crates.parseVersion (crates.showVersion version) = .ok version) :
    crates.versionOfValue (.string (crates.showVersion version)) = some version := by
  rw [Crates.versionOfValue, hparse]
  rfl

theorem mem_versionEdges {key : EdgeKey} {value : Value} :
    (key, value) ∈ ((g.outbound id .schemaDefinition).filterMap fun edge =>
        (edge.2 .version).map (edge.1, ·)) ↔
      key = schemaDefinitionKey id key.inboundId ∧ versionValue g id key.inboundId = some value := by
  rw [List.mem_filterMap]
  constructor
  · rintro ⟨⟨k, props⟩, hedge, hvalue⟩
    obtain ⟨version, hversion, heq⟩ := Option.map_eq_some_iff.mp hvalue
    cases heq
    obtain ⟨hid, ht, hprops⟩ := Graph.mem_outbound.mp hedge
    have hkey : k = schemaDefinitionKey id k.inboundId := eq_schemaDefinitionKey hid ht
    refine ⟨hkey, ?_⟩
    rw [versionValue, ← hkey, hprops]
    exact hversion
  · rintro ⟨hkey, hvalue⟩
    obtain ⟨props, hprops, hversion⟩ := Option.bind_eq_some_iff.mp hvalue
    rw [← hkey] at hprops
    have hid : key.outboundId = id := by rw [hkey]; rfl
    have ht : key.t = .schemaDefinition := by rw [hkey]; rfl
    refine ⟨(key, props), Graph.mem_outbound.mpr ⟨hid, ht, hprops⟩, ?_⟩
    show (props .version).map _ = _
    rw [hversion]
    rfl

theorem versionsOf_eq_ok_iff {l : List (EdgeKey × Value)} :
    (∃ found, versionsOf crates id l = .ok found) ↔
      ∀ entry ∈ l, (crates.versionOfValue entry.2).isSome := by
  induction l with
  | nil => exact iff_of_true ⟨[], rfl⟩ (List.forall_mem_nil _)
  | cons entry l ih =>
    obtain ⟨key, value⟩ := entry
    rw [List.forall_mem_cons, ← ih, versionsOf]
    cases crates.versionOfValue value with
    | none => simp
    | some version => cases versionsOf crates id l <;> simp [pure, Except.pure]

theorem mem_versionsOf {l : List (EdgeKey × Value)} {found : List (Version × Uuid)}
    (h : versionsOf crates id l = .ok found) {x : Version × Uuid} :
    x ∈ found ↔ ∃ entry ∈ l, crates.versionOfValue entry.2 = some x.1 ∧ entry.1.inboundId = x.2 := by
  induction l generalizing found with
  | nil =>
    cases h
    simp
  | cons entry l ih =>
    obtain ⟨key, value⟩ := entry
    rw [versionsOf] at h
    cases hversion : crates.versionOfValue value with
    | none =>
      rw [hversion] at h
      cases h
    | some version =>
      rw [hversion] at h
      obtain ⟨earlier, hearlier, heq⟩ := bind_eq_ok.mp h
      cases heq
      rw [List.mem_cons, ih hearlier, List.exists_mem_cons_iff]
      refine or_congr_left ?_
      rw [Prod.ext_iff, hversion, Option.some.injEq, eq_comm (a := x.1), eq_comm (a := x.2)]

theorem versions_eq_ok_iff : (∃ found, versions crates g id = .ok found) ↔
    ∀ d value, versionValue g id d = some value → (crates.versionOfValue value).isSome := by
  rw [versions, versionsOf_eq_ok_iff]
  constructor
  · intro h d value hvalue
    exact h (schemaDefinitionKey id d, value) (mem_versionEdges.mpr ⟨rfl, hvalue⟩)
  · rintro h ⟨key, value⟩ hmem
    exact h key.inboundId value (mem_versionEdges.mp hmem).2

theorem mem_versions {found : List (Version × Uuid)} (h : versions crates g id = .ok found)
    {x : Version × Uuid} :
    x ∈ found ↔ (versionValue g id x.2).bind crates.versionOfValue = some x.1 := by
  rw [mem_versionsOf h, Option.bind_eq_some_iff]
  constructor
  · rintro ⟨⟨key, value⟩, hmem, hversion, hd⟩
    have hvalue := (mem_versionEdges.mp hmem).2
    dsimp only at hd
    rw [hd] at hvalue
    exact ⟨value, hvalue, hversion⟩
  · rintro ⟨value, hvalue, hversion⟩
    exact ⟨(schemaDefinitionKey id x.2, value), mem_versionEdges.mpr ⟨rfl, hvalue⟩, hversion, rfl⟩

/-- What the check of a new version has seen, if it passed. -/
theorem lt_of_maxByVersion {found : List (Version × Uuid)} {version : Version}
    (h : ∀ greatest, maxByVersion found = some greatest → ¬ (compare greatest.1 version).isGE) :
    ∀ x ∈ found, compare x.1 version = .lt := by
  intro x hx
  cases hmax : maxByVersion found with
  | none =>
    rw [maxByVersion_eq_none.mp hmax] at hx
    cases hx
  | some greatest =>
    have hnot := h greatest hmax
    refine TransCmp.lt_of_isLE_of_lt ((le_maxByVersion hmax).2 x hx) ?_
    cases hcompare : compare greatest.1 version with
    | lt => rfl
    | eq => exact absurd (hcompare ▸ rfl) hnot
    | gt => exact absurd (hcompare ▸ rfl) hnot

theorem greatestVersion_eq_ok {version : Version}
    (h : greatestVersion crates g id version = .ok ()) :
    ∃ found, versions crates g id = .ok found ∧ ∀ x ∈ found, compare x.1 version = .lt := by
  obtain ⟨found, hfound, hgreatest⟩ := bind_eq_ok.mp h
  refine ⟨found, hfound, lt_of_maxByVersion fun greatest hmax => ?_⟩
  rw [hmax] at hgreatest
  dsimp only at hgreatest
  split at hgreatest
  · cases hgreatest
  · assumption

/-! ## The latest definition -/

def latestValue (crates : Crates) (g : Graph) (id : Uuid) : Except RegistryError Value :=
  (latestDefinition crates g (.any id)).map (·.definition)

theorem latestVersion_any : latestVersion crates g (.any id) =
    versions crates g id >>= fun found => match maxByVersion found with
      | some version => .ok version
      | none => .error (.noVersionMatchesRequirement (.any id)) := by
  have hall (found : List (Version × Uuid)) :
      (found.filter fun version => (VersionedUuid.any id).versionReq.accepts version.1) = found :=
    List.filter_eq_self.mpr fun _ _ => rfl
  simp only [latestVersion, hall]
  rfl

/-- The vertex of a version exists, with its schema. -/
theorem vertices_of_versions {found : List (Version × Uuid)} (h : versions crates g id = .ok found)
    {x : Version × Uuid} (hx : x ∈ found) : g.vertexAt id ≠ none ∧ g.vertexAt x.2 ≠ none := by
  obtain ⟨value, hvalue, -⟩ := Option.bind_eq_some_iff.mp ((mem_versions h).mp hx)
  obtain ⟨props, hprops, -⟩ := Option.bind_eq_some_iff.mp hvalue
  have hedge : g.edgeAt (schemaDefinitionKey id x.2) ≠ none := hprops ▸ Option.some_ne_none _
  exact Graph.endpoints_of_edgeAt hedge

theorem latestValue_eq_ok {value : Value} : latestValue crates g id = .ok value ↔
    ∃ found x, versions crates g id = .ok found ∧ maxByVersion found = some x ∧
      definitionAt g x.2 = some value := by
  rw [latestValue, latestDefinition, latestVersion_any]
  cases versions crates g id with
  | error e => simp [Except.map]
  | ok found =>
    cases hmax : maxByVersion found with
    | none => simp [Except.map, hmax]
    | some x =>
      obtain ⟨version, v⟩ := x
      cases hvalue : definitionAt g v <;> simp [Except.map, hmax, hvalue]

theorem latestValue_of_free (hid : g.vertexAt id = none) (value : Value) :
    latestValue crates g id ≠ .ok value := by
  intro h
  obtain ⟨found, x, hfound, hmax, -⟩ := latestValue_eq_ok.mp h
  exact (vertices_of_versions hfound (le_maxByVersion hmax).1).1 hid

/-- It depends on the edges from the schema and the definitions that are there. -/
theorem latestValue_congr
    (hedges : ∀ key : EdgeKey, key.outboundId = id → key.t = .schemaDefinition →
      g.edgeAt key = g'.edgeAt key)
    (hdefinition : ∀ d, g.vertexAt d ≠ none → definitionAt g d = definitionAt g' d) :
    latestValue crates g id = latestValue crates g' id := by
  have hversions : versions crates g id = versions crates g' id := by
    rw [versions, versions, Graph.outbound_congr hedges]
  rw [latestValue, latestValue, latestDefinition, latestDefinition, latestVersion_any,
    latestVersion_any, ← hversions]
  cases hfound : versions crates g id with
  | error e => rfl
  | ok found =>
    rw [ok_bind]
    cases hmax : maxByVersion found with
    | none => rfl
    | some x =>
      have hx := vertices_of_versions hfound (le_maxByVersion hmax).1
      simp only [ok_bind, hdefinition x.2 hx.2]

/-- The new version is greater than all others, so its definition is the latest one. -/
theorem latestValue_withDefinition (hid : g.vertexAt id ≠ none) (hd : g.vertexAt d = none)
    {version : Version} (hgreatest : greatestVersion crates g id version = .ok ())
    (hparse : crates.parseVersion (crates.showVersion version) = .ok version)
    (definition : Definition) :
    latestValue crates (withDefinition crates g id d version definition) id =
      .ok definition.definition := by
  obtain ⟨found, hfound, hless⟩ := greatestVersion_eq_ok hgreatest
  have hvalue (v : Uuid) : versionValue (withDefinition crates g id d version definition) id v =
      if v = d then some (.string (crates.showVersion version)) else versionValue g id v := by
    rw [versionValue_addVersion (edgeAt_withDefinition hid hd version definition)]
    simp
  have hnew := versionOfValue_show hparse
  obtain ⟨found', hfound'⟩ : ∃ found',
      versions crates (withDefinition crates g id d version definition) id = .ok found' := by
    refine versions_eq_ok_iff.mpr fun v value hv => ?_
    rw [hvalue] at hv
    split at hv
    · cases hv
      rw [hnew]
      rfl
    · exact versions_eq_ok_iff.mp ⟨found, hfound⟩ v value hv
  refine latestValue_eq_ok.mpr ⟨found', (version, d), hfound', maxByVersion_of_greatest ?_ ?_, ?_⟩
  · rw [mem_versions hfound', hvalue, if_pos rfl]
    exact hnew
  · intro x hx
    rw [mem_versions hfound', hvalue] at hx
    split at hx
    · rename_i hd
      rw [Option.bind_some, hnew, Option.some.injEq] at hx
      exact Or.inl (Prod.ext hx.symm hd)
    · exact Or.inr (hless x ((mem_versions hfound).mpr hx))
  · rw [definitionAt, vertexAt_withDefinition hd, if_pos rfl]
    rfl

/-! ## References -/

/-- The schemas that a definition refers to. -/
def references (crates : Crates) (definition : Value) : List Uuid :=
  match definitionsOf definition with
  | some defs => (schemasToRetrieve crates defs).map (·.2)
  | none => []

/-- The names under `definitions` are distinct, as they are in a map of `serde_json`. -/
def DistinctNames (definition : Value) : Prop :=
  ∀ defs ∈ definitionsOf definition, (defs.map (·.1)).Nodup

variable {ids : List (String × Uuid)} {defs defs' : List (String × Value)}

theorem retrieve_cons (entry : String × Uuid) : retrieve crates g (entry :: ids) defs =
    latestValue crates g entry.2 >>= fun value =>
      retrieve crates g ids (setMember entry.1 value defs) := by
  rw [retrieve, latestValue]
  cases latestDefinition crates g (.any entry.2) <;> rfl

theorem retrieve_congr (h : ∀ entry ∈ ids, latestValue crates g entry.2 = latestValue crates g' entry.2) :
    retrieve crates g ids defs = retrieve crates g' ids defs := by
  induction ids generalizing defs with
  | nil => rfl
  | cons entry ids ih =>
    rw [retrieve_cons, retrieve_cons, h entry List.mem_cons_self]
    exact congrArg _ (funext fun value => ih fun other hother => h other (List.mem_cons_of_mem _ hother))

theorem resolve_congr {definition : Value}
    (h : ∀ id ∈ references crates definition, latestValue crates g id = latestValue crates g' id) :
    resolve crates g definition = resolve crates g' definition := by
  unfold resolve
  unfold references at h
  cases hdefs : definitionsOf definition with
  | none => rfl
  | some defs =>
    rw [hdefs] at h
    dsimp only
    rw [retrieve_congr fun entry hentry => h entry.2 (List.mem_map_of_mem hentry)]

theorem fullSchema_congr {definition : Value}
    (h : ∀ id ∈ references crates definition, latestValue crates g id = latestValue crates g' id) :
    fullSchema crates g definition = fullSchema crates g' definition := by
  rw [fullSchema, fullSchema, resolve_congr h]

/-! ## What a resolved definition shows -/

theorem names_setMember (key : String) (value : Value) :
    (setMember key value defs).map (·.1) = defs.map (·.1) := by
  rw [setMember, List.map_map]
  refine List.map_congr_left fun member _ => ?_
  show (if member.1 = key then (key, value) else member).1 = member.1
  split
  · rename_i h
    exact h.symm
  · rfl

theorem mem_setMember_self {key : String} {value : Value} (h : key ∈ defs.map (·.1)) :
    (key, value) ∈ setMember key value defs := by
  obtain ⟨member, hmember, rfl⟩ := List.mem_map.mp h
  exact List.mem_map.mpr ⟨member, hmember, if_pos rfl⟩

theorem mem_setMember_of_ne {key : String} {value : Value} {member : String × Value}
    (h : member ∈ defs) (hne : member.1 ≠ key) : member ∈ setMember key value defs :=
  List.mem_map.mpr ⟨member, h, if_neg hne⟩

theorem eq_of_mem_setMember {key : String} {value value' : Value}
    (h : (key, value') ∈ setMember key value defs) : value' = value := by
  obtain ⟨member, -, heq⟩ := List.mem_map.mp h
  split at heq
  · exact (Prod.mk.inj heq).2.symm
  · rename_i hne
    exact absurd (congrArg Prod.fst heq) hne

theorem names_schemasToRetrieve :
    ((schemasToRetrieve crates defs).map (·.1)).Sublist (defs.map (·.1)) := by
  induction defs with
  | nil => exact .slnil
  | cons member defs ih =>
    obtain ⟨key, value⟩ := member
    rw [schemasToRetrieve, List.filterMap_cons]
    split
    · exact .cons _ ih
    · rename_i entry hentry
      obtain ⟨text, -, hentry⟩ := Option.bind_eq_some_iff.mp hentry
      obtain ⟨id, -, rfl⟩ := Option.map_eq_some_iff.mp hentry
      exact .cons_cons _ ih

/-- What is left after retrieving: each name with the latest definition of its schema, and the other
members as they were. -/
theorem mem_of_retrieve (h : retrieve crates g ids defs = .ok defs') (hids : (ids.map (·.1)).Nodup) :
    (∀ entry ∈ ids, entry.1 ∈ defs.map (·.1) →
      ∃ value, latestValue crates g entry.2 = .ok value ∧ (entry.1, value) ∈ defs') ∧
    (∀ member ∈ defs, member.1 ∉ ids.map (·.1) → member ∈ defs') ∧
    defs'.map (·.1) = defs.map (·.1) := by
  induction ids generalizing defs with
  | nil =>
    cases h
    exact ⟨List.forall_mem_nil _, fun member hmember _ => hmember, rfl⟩
  | cons entry ids ih =>
    rw [retrieve_cons] at h
    obtain ⟨value, hvalue, h⟩ := bind_eq_ok.mp h
    rw [List.map_cons, List.nodup_cons] at hids
    obtain ⟨hretrieved, hkept, hnames⟩ := ih h hids.2
    rw [names_setMember] at hnames
    refine ⟨fun other hother hname => ?_, fun member hmember hout => ?_, hnames⟩
    · rcases List.mem_cons.mp hother with rfl | hother
      · exact ⟨value, hvalue, hkept _ (mem_setMember_self hname) hids.1⟩
      · exact hretrieved other hother (by rwa [names_setMember])
    · rw [List.map_cons, List.mem_cons, not_or] at hout
      exact hkept member (mem_setMember_of_ne hmember hout.1) hout.2

theorem setDefinitions_inj {definition : Value} {first second : List (String × Value)}
    (hdefs : definitionsOf definition = some defs)
    (h : setDefinitions definition first = setDefinitions definition second) : first = second := by
  cases definition with
  | object members =>
    have hmem : "definitions" ∈ members.map (·.1) := by
      rw [definitionsOf] at hdefs
      cases hlookup : members.lookup "definitions" with
      | none =>
        rw [hlookup] at hdefs
        cases hdefs
      | some value =>
        obtain ⟨front, back, hmembers, -⟩ := List.lookup_eq_some_iff.mp hlookup
        rw [hmembers]
        simp
    have hfirst : ("definitions", Value.object first) ∈ _ := mem_setMember_self hmem
    rw [Value.object.inj h] at hfirst
    exact Value.object.inj (eq_of_mem_setMember hfirst)
  | _ => cases hdefs

theorem fullSchema_eq_ok {definition : Value} {full : Definition}
    (h : fullSchema crates g definition = .ok full) :
    resolve crates g definition = .ok full.definition := by
  obtain ⟨value, hvalue, hcompile⟩ := bind_eq_ok.mp h
  split at hcompile
  · cases hcompile
    exact hvalue
  · cases hcompile

/-- Two registries that resolve a definition to the same agree on what it refers to. -/
theorem latestValue_of_fullSchema {definition : Value} {full : Definition}
    (hnames : DistinctNames definition) (h : fullSchema crates g definition = .ok full)
    (h' : fullSchema crates g' definition = .ok full) {id : Uuid}
    (hid : id ∈ references crates definition) :
    ∃ value, latestValue crates g id = .ok value ∧ latestValue crates g' id = .ok value := by
  have hresolve := fullSchema_eq_ok h
  have hresolve' := fullSchema_eq_ok h'
  unfold resolve at hresolve hresolve'
  unfold references at hid
  cases hdefs : definitionsOf definition with
  | none =>
    rw [hdefs] at hid
    cases hid
  | some defs =>
    rw [hdefs] at hid hresolve hresolve'
    obtain ⟨entry, hentry, rfl⟩ := List.mem_map.mp hid
    obtain ⟨found, hfound, heq⟩ := bind_eq_ok.mp hresolve
    obtain ⟨found', hfound', heq'⟩ := bind_eq_ok.mp hresolve'
    have hsame : found = found' :=
      setDefinitions_inj hdefs (Except.ok.inj (heq.trans heq'.symm))
    subst hsame
    have hnodup := hnames defs hdefs
    have hsublist : ((schemasToRetrieve crates defs).map (·.1)).Sublist _ := names_schemasToRetrieve
    have hname := hsublist.subset (List.mem_map_of_mem (f := (·.1)) hentry)
    obtain ⟨hmem, -, hfoundNames⟩ := mem_of_retrieve hfound (hnodup.sublist hsublist)
    obtain ⟨value, hvalue, hin⟩ := hmem entry hentry hname
    obtain ⟨value', hvalue', hin'⟩ :=
      (mem_of_retrieve hfound' (hnodup.sublist hsublist)).1 entry hentry hname
    have hunique : (found.map (·.1)).Nodup := hfoundNames ▸ hnodup
    have hsame := List.inj_on_of_nodup_map hunique hin hin' rfl
    exact ⟨value, hvalue, (Prod.mk.inj hsame).2 ▸ hvalue'⟩

end CommonDataLayer.SchemaRegistry
