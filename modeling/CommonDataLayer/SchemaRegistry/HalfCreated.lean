import CommonDataLayer.SchemaRegistry.ReadProtocol

/-! # What is half created

A vertex without some of its properties, an edge to a definition without its version, and a schema
without a definition are what a call that creates them leaves behind between two datastore calls.

* `Part`: what can be missing in a graph. `Progress.Owes`: what a call still has to add.
* `missing_answer`: whatever a call that follows `creationProtocol` leaves missing, it owes.
* `Readable`: what is there is read back. `Readable.answer`: such a call keeps it.
* `wholeAnswer`: an answer is whole if nothing is missing of what it lists.
-/
namespace CommonDataLayer.SchemaRegistry
open Interaction PropertyGraph
set_option autoImplicit false

/-- What a vertex, an edge to a definition or a schema needs. -/
inductive Part where
  | property (id : Uuid) (t : VertexType) (name : PropName)
  | version (key : EdgeKey)
  | definition (id : Uuid)

/-- A version of the schema is set. -/
def Versioned (g : Graph) (id : Uuid) : Prop := ∃ d, versionValue g id d ≠ none

def Part.MissingIn (g : Graph) : Part → Prop
  | property id t name => name ∈ t.properties ∧ ∃ props, g.vertexAt id = some ⟨t, props⟩ ∧ props name = none
  | version key => key.t = .schemaDefinition ∧ ∃ props, g.edgeAt key = some props ∧ props .version = none
  | definition id => HasType g id .schema ∧ ¬ Versioned g id

/-- What the call adds if it is not interrupted. -/
def Progress.Owes (p : Progress) : Part → Prop
  | .property id t name => ∃ rest, p.vertex = some (id, t, rest) ∧ name ∈ rest
  | .version key => p.edge = some key
  | .definition id => p.schema = some id

/-- The vertex is there, and no properties but these are missing. -/
def Lacks (g : Graph) (id : Uuid) (t : VertexType) (rest : List PropName) : Prop :=
  ∃ props, g.vertexAt id = some ⟨t, props⟩ ∧ ∀ name ∈ t.properties, props name = none → name ∈ rest

/-- What a call knows of the database, whatever the other calls do. -/
structure Progress.Knows (g : Graph) (p : Progress) : Prop where
  parent : ∀ id ∈ p.parent, g.vertexAt id ≠ none
  vertex : ∀ v ∈ p.vertex, Lacks g v.1 v.2.1 v.2.2
  edge : ∀ key ∈ p.edge, key.t = .schemaDefinition ∧ g.edgeAt key ≠ none

/-- What is there is read back, and an edge leads to a vertex of its type that lacks nothing. -/
structure Readable (crates : Crates) (g : Graph) : Prop where
  vertex (id : Uuid) (vertex : Vertex) : g.vertexAt id = some vertex →
    ∀ name value, vertex.props name = some value → Fits crates name value
  edge (key : EdgeKey) (props : Props PropName Value) : g.edgeAt key = some props →
    ∀ value, props .version = some value → Fits crates .version value
  target (key : EdgeKey) : g.edgeAt key ≠ none → Lacks g key.inboundId key.t.target []

section Graphs
variable {crates : Crates} {broker : Broker} {g g' : Graph} {p : Progress} {id : Uuid} {t : VertexType}
  {rest : List PropName} {w : World} {q : Call}

/-! ## Nothing is taken away -/

theorem grows_answer (q : Call) (w : World) : w.graph.Grows (answer broker q w).2.graph := by
  cases q with
  | createVertex id t => exact Graph.grows_createVertex id t
  | createVertexFromType t =>
    rw [answer]
    split
    · exact Graph.grows_createVertex _ t
    · exact .refl _
  | setVertexProperties id name value => exact Graph.grows_setVertexProperty id name value
  | createEdge key => exact Graph.grows_createEdge key
  | setEdgeProperties key name value => exact Graph.grows_setEdgeProperty key name value
  | replicateMessage event =>
    rw [answer]
    split <;> exact .refl _
  | _ => exact .refl _

theorem Lacks.mono (h : Lacks g id t rest) (hgrows : g.Grows g') : Lacks g' id t rest := by
  obtain ⟨props, hvertex, hrest⟩ := h
  obtain ⟨props', hvertex', hprops⟩ := hgrows.vertex id t props hvertex
  refine ⟨props', hvertex', fun name hname hnone => hrest name hname ?_⟩
  by_contra hsome
  exact hprops name hsome hnone

theorem versioned_iff : Versioned g id ↔
    ∃ d props, g.edgeAt (schemaDefinitionKey id d) = some props ∧ props .version ≠ none := by
  simp only [Versioned, versionValue, ne_eq, Option.bind_eq_none_iff, not_forall, exists_prop]

theorem Versioned.mono (h : Versioned g id) (hgrows : g.Grows g') : Versioned g' id := by
  obtain ⟨d, props, hprops, hversion⟩ := versioned_iff.mp h
  obtain ⟨props', hprops', hkept⟩ := hgrows.edge _ props hprops
  exact versioned_iff.mpr ⟨d, props', hprops', hkept _ hversion⟩

theorem Progress.Knows.mono (h : p.Knows g) (hgrows : g.Grows g') : p.Knows g' where
  parent id hid := hgrows.vertexAt (h.parent id hid)
  vertex v hv := (h.vertex v hv).mono hgrows
  edge key hkey := ⟨(h.edge key hkey).1, hgrows.edgeAt (h.edge key hkey).2⟩

/-! ## What a call leaves missing -/

/-- A part that was missing before. -/
theorem missing_of_before {p' : Progress} {part : Part} (hkeeps : p.Owes part → p'.Owes part)
    (h : part.MissingIn g) : p'.Owes part ∨ part.MissingIn g ∧ ¬ p.Owes part := by
  by_cases howes : p.Owes part
  · exact Or.inl (hkeeps howes)
  · exact Or.inr ⟨h, howes⟩

theorem missing_createVertex (hready : p.Ready t) {part : Part}
    (h : part.MissingIn (g.createVertex id t)) :
    (p.created id t).Owes part ∨ part.MissingIn g ∧ ¬ p.Owes part := by
  cases part with
  | property i t' name =>
    obtain ⟨hname, props, hi, hnone⟩ := h
    rw [Graph.vertexAt_createVertex] at hi
    split at hi
    · rename_i hnew
      obtain ⟨rfl, -⟩ := hnew
      cases hi
      exact Or.inl ⟨t.properties, rfl, hname⟩
    · refine Or.inr ⟨⟨hname, props, hi, hnone⟩, ?_⟩
      rintro ⟨rest, hrest, hmem⟩
      obtain rfl : rest = [] := hready.vertex _ hrest
      cases hmem
  | version key =>
    refine Or.inr ⟨h, fun hkey => ?_⟩
    rw [Progress.Owes, hready.edge] at hkey
    cases hkey
  | definition i =>
    obtain ⟨⟨props, hi⟩, hnot⟩ := h
    rw [Graph.vertexAt_createVertex] at hi
    split at hi
    · rename_i hnew
      obtain ⟨rfl, -⟩ := hnew
      cases hi
      exact Or.inl rfl
    · refine missing_of_before (fun howes => ?_) ⟨⟨props, hi⟩, hnot⟩
      show (if t = .schema then _ else p.schema) = _
      rw [if_neg fun ht => ?_, howes]
      rw [Progress.Owes, hready.schema ht] at howes
      cases howes

theorem missing_setVertexProperty {name : PropName} {value : Value}
    (hvertex : p.vertex = some (id, t, name :: rest)) {part : Part}
    (h : part.MissingIn (g.setVertexProperty id name value)) :
    p.wrote.Owes part ∨ part.MissingIn g ∧ ¬ p.Owes part := by
  have hwrote : p.wrote.vertex = some (id, t, rest) := by rw [Progress.wrote, hvertex]; rfl
  cases part with
  | property i t' other =>
    obtain ⟨hown, props, hi, hnone⟩ := h
    rw [Graph.vertexAt_setVertexProperty] at hi
    by_cases howes : p.Owes (.property i t' other)
    · obtain ⟨_, hrest, hmem⟩ := howes
      rw [hvertex] at hrest
      cases hrest
      rw [if_pos rfl] at hi
      obtain ⟨vertex, -, heq⟩ := Option.map_eq_some_iff.mp hi
      cases heq
      refine Or.inl ⟨rest, hwrote, (List.mem_cons.mp hmem).resolve_left ?_⟩
      rintro rfl
      rw [Function.update_self] at hnone
      cases hnone
    · refine Or.inr ⟨⟨hown, ?_⟩, howes⟩
      split at hi
      · obtain ⟨vertex, hbefore, heq⟩ := Option.map_eq_some_iff.mp hi
        cases heq
        refine ⟨vertex.props, hbefore, ?_⟩
        by_contra hsome
        exact Graph.update_ne_none hsome hnone
      · exact ⟨props, hi, hnone⟩
  | version key => exact missing_of_before (fun howes => howes) h
  | definition i =>
    exact missing_of_before (fun howes => howes) ⟨hasType_setVertexProperty.mp h.1, h.2⟩

theorem missing_createEdge {key : EdgeKey} (hedge : p.edge = none) {part : Part}
    (h : part.MissingIn (g.createEdge key)) :
    (if key.t = .schemaDefinition then { p with edge := some key } else p).Owes part ∨
      part.MissingIn g ∧ ¬ p.Owes part := by
  cases part with
  | property i t name =>
    obtain ⟨hname, props, hi, hnone⟩ := h
    rw [Graph.vertexAt_createEdge] at hi
    refine missing_of_before (fun howes => ?_) ⟨hname, props, hi, hnone⟩
    split <;> exact howes
  | version k =>
    obtain ⟨ht, props, hk, hnone⟩ := h
    rw [Graph.edgeAt_createEdge] at hk
    split at hk
    · rename_i hnew
      obtain ⟨rfl, -⟩ := hnew
      rw [if_pos ht]
      exact Or.inl rfl
    · refine Or.inr ⟨⟨ht, props, hk, hnone⟩, fun howes => ?_⟩
      rw [Progress.Owes, hedge] at howes
      cases howes
  | definition i =>
    obtain ⟨⟨props, hi⟩, hnot⟩ := h
    rw [Graph.vertexAt_createEdge] at hi
    refine missing_of_before (fun howes => ?_)
      ⟨⟨props, hi⟩, fun hbefore => hnot (hbefore.mono (Graph.grows_createEdge key))⟩
    split <;> exact howes

theorem versioned_setEdgeProperty {key : EdgeKey} (ht : key.t = .schemaDefinition)
    (hkey : g.edgeAt key ≠ none) (value : Value) :
    Versioned (g.setEdgeProperty key .version value) key.outboundId := by
  obtain ⟨props, hprops⟩ := Option.ne_none_iff_exists'.mp hkey
  refine versioned_iff.mpr ⟨key.inboundId, Function.update props .version (some value), ?_, by simp⟩
  rw [← eq_schemaDefinitionKey rfl ht, Graph.edgeAt_setEdgeProperty, if_pos rfl, hprops]
  rfl

theorem missing_setEdgeProperty {key : EdgeKey} {value : Value} (hknows : p.Knows g)
    (hedge : p.edge = some key) (hschema : ∀ id ∈ p.schema, id = key.outboundId) {part : Part}
    (h : part.MissingIn (g.setEdgeProperty key .version value)) :
    ({ p with schema := none, edge := none } : Progress).Owes part ∨
      part.MissingIn g ∧ ¬ p.Owes part := by
  obtain ⟨ht, hkey⟩ := hknows.edge key hedge
  cases part with
  | property i t name => exact missing_of_before (fun howes => howes) h
  | version k =>
    obtain ⟨hk, props, hprops, hnone⟩ := h
    rw [Graph.edgeAt_setEdgeProperty] at hprops
    split at hprops
    · obtain ⟨before, -, rfl⟩ := Option.map_eq_some_iff.mp hprops
      rw [Function.update_self] at hnone
      cases hnone
    · rename_i hne
      refine Or.inr ⟨⟨hk, props, hprops, hnone⟩, fun howes => hne ?_⟩
      rw [Progress.Owes, hedge] at howes
      exact Option.some.inj howes
  | definition i =>
    obtain ⟨hi, hnot⟩ := h
    refine Or.inr ⟨⟨hi, fun hbefore => hnot ?_⟩, fun howes => hnot ?_⟩
    · exact hbefore.mono (Graph.grows_setEdgeProperty key _ _)
    · rw [hschema i howes]
      exact versioned_setEdgeProperty ht hkey value

/-- The two calls that create a vertex. -/
def Call.Creates (t : VertexType) : Call → Prop
  | createVertex _ t' => t' = t
  | createVertexFromType t' => t' = t
  | _ => False

/-- They create a vertex whose identifier is free, or they change nothing. -/
theorem creates_cases (broker : Broker) (w : World) (p : Progress) (hq : q.Creates t) :
    (∃ id, w.graph.vertexAt id = none ∧ (answer broker q w).2.graph = w.graph.createVertex id t ∧
      p.after q (answer broker q w).1 = p.created id t) ∨
    (answer broker q w).2.graph = w.graph ∧ p.after q (answer broker q w).1 = p := by
  cases q with
  | createVertex id t' =>
    obtain rfl : t' = t := hq
    by_cases hfree : w.graph.vertexAt id = none
    · exact Or.inl ⟨id, hfree, rfl, by simp [answer, hfree, Progress.after]⟩
    · have htaken : (w.graph.vertexAt id).isNone = false :=
        Option.isNone_eq_false_iff.mpr (Option.isSome_iff_ne_none.mpr hfree)
      exact Or.inr ⟨createVertex_taken hfree t', by simp [answer, htaken, Progress.after]⟩
  | createVertexFromType t' =>
    obtain rfl : t' = t := hq
    rw [answer]
    dsimp only
    split
    · rename_i hfree
      exact Or.inl ⟨_, Option.isNone_iff_eq_none.mp hfree, rfl, rfl⟩
    · exact Or.inr ⟨rfl, rfl⟩
  | _ => exact hq.elim

theorem missing_creates (hq : q.Creates t) (hready : p.Ready t) {part : Part}
    (h : part.MissingIn (answer broker q w).2.graph) :
    (p.after q (answer broker q w).1).Owes part ∨ part.MissingIn w.graph ∧ ¬ p.Owes part := by
  obtain ⟨id, -, hgraph, hafter⟩ | ⟨hgraph, hafter⟩ := creates_cases broker w p hq
  · rw [hgraph] at h
    rw [hafter]
    exact missing_createVertex hready h
  · rw [hgraph] at h
    rw [hafter]
    exact missing_of_before (fun howes => howes) h

/-- Whatever is missing after a call was missing before, or the call that is being handled owes it. -/
theorem missing_answer (hallows : (creationProtocol crates).Allows p q)
    (hknows : p.Knows w.graph) {part : Part} (h : part.MissingIn (answer broker q w).2.graph) :
    (p.after q (answer broker q w).1).Owes part ∨ part.MissingIn w.graph ∧ ¬ p.Owes part := by
  cases q with
  | createVertex id t =>
    have hcreates : Call.Creates t (.createVertex id t) := rfl
    exact missing_creates hcreates hallows h
  | createVertexFromType t =>
    have hcreates : Call.Creates t (.createVertexFromType t) := rfl
    exact missing_creates hcreates hallows h
  | setVertexProperties id name value =>
    obtain ⟨-, t, rest, hvertex⟩ := hallows
    exact missing_setVertexProperty hvertex h
  | createEdge key => exact missing_createEdge hallows.1 h
  | setEdgeProperties key name value =>
    obtain ⟨-, rfl, hedge, hschema⟩ := hallows
    exact missing_setEdgeProperty hknows hedge hschema h
  | getVertices id =>
    refine missing_of_before (fun howes => ?_) h
    cases hid : w.graph.vertexAt id with
    | none => simpa [answer, hid, Progress.after] using howes
    | some vertex => simpa [answer, hid, Progress.after, Progress.Owes] using howes
  | topicOrExchangeExists name => exact hallows.elim
  | replicateMessage event => exact hallows.elim
  | ack => exact hallows.elim
  | _ => exact missing_of_before (fun howes => howes) h

/-! ## What a call knows afterwards -/

theorem Lacks.vertexAt (h : Lacks g id t rest) : g.vertexAt id ≠ none := by
  obtain ⟨props, hprops, -⟩ := h
  exact hprops ▸ Option.some_ne_none _

theorem lacks_createVertex (hfree : g.vertexAt id = none) :
    Lacks (g.createVertex id t) id t t.properties := by
  refine ⟨fun _ => none, ?_, fun name hname _ => hname⟩
  rw [Graph.vertexAt_createVertex, if_pos ⟨rfl, hfree⟩]

theorem lacks_setVertexProperty {name : PropName} (h : Lacks g id t (name :: rest)) (value : Value) :
    Lacks (g.setVertexProperty id name value) id t rest := by
  obtain ⟨props, hprops, hrest⟩ := h
  refine ⟨Function.update props name (some value), ?_, fun other hother hnone => ?_⟩
  · rw [Graph.vertexAt_setVertexProperty, if_pos rfl, hprops]
    rfl
  · by_cases hname : other = name
    · subst hname
      rw [Function.update_self] at hnone
      cases hnone
    · rw [Function.update_of_ne hname] at hnone
      exact (List.mem_cons.mp (hrest other hother hnone)).resolve_left hname

theorem edgeAt_createEdge_ne_none {key : EdgeKey} (hout : g.vertexAt key.outboundId ≠ none)
    (hin : g.vertexAt key.inboundId ≠ none) : (g.createEdge key).edgeAt key ≠ none := by
  rw [Graph.edgeAt_createEdge]
  split
  · exact Option.some_ne_none _
  · rename_i hnot
    exact fun hnone => hnot ⟨rfl, hout, hin, hnone⟩

theorem Progress.Knows.created (h : p.Knows g) (hfree : g.vertexAt id = none) :
    (p.created id t).Knows (g.createVertex id t) where
  parent i hi := by
    rw [Progress.created] at hi
    dsimp only at hi
    split at hi
    · cases hi
      exact (lacks_createVertex hfree).vertexAt
    · exact (Graph.grows_createVertex id t).vertexAt (h.parent i hi)
  vertex v hv := by
    cases hv
    exact lacks_createVertex hfree
  edge := (h.mono (Graph.grows_createVertex id t)).edge

theorem Progress.Knows.creates (h : p.Knows w.graph) (hq : q.Creates t) :
    (p.after q (answer broker q w).1).Knows (answer broker q w).2.graph := by
  obtain ⟨id, hfree, hgraph, hafter⟩ | ⟨hgraph, hafter⟩ := creates_cases broker w p hq
  · rw [hgraph, hafter]
    exact h.created hfree
  · rwa [hgraph, hafter]

theorem Progress.Knows.answer (hknows : p.Knows w.graph)
    (hallows : (creationProtocol crates).Allows p q) :
    (p.after q (answer broker q w).1).Knows (answer broker q w).2.graph := by
  have hbefore : p.Knows (SchemaRegistry.answer broker q w).2.graph := hknows.mono (grows_answer q w)
  cases q with
  | createVertex id t => exact hknows.creates rfl
  | createVertexFromType t => exact hknows.creates rfl
  | setVertexProperties id name value =>
    obtain ⟨-, t, rest, hvertex⟩ := hallows
    refine ⟨hbefore.parent, fun v hv => ?_, hbefore.edge⟩
    have hv : p.wrote.vertex = some v := hv
    rw [Progress.wrote, hvertex] at hv
    cases hv
    exact lacks_setVertexProperty (hknows.vertex _ hvertex) value
  | createEdge key =>
    obtain ⟨-, hparent, hvertex, -⟩ := hallows
    show (if key.t = .schemaDefinition then { p with edge := some key } else p).Knows _
    split
    · rename_i ht
      refine ⟨hbefore.parent, hbefore.vertex, fun k hk => ?_⟩
      cases hk
      exact ⟨ht, edgeAt_createEdge_ne_none (hknows.parent _ hparent) (hknows.vertex _ hvertex).vertexAt⟩
    · exact hbefore
  | setEdgeProperties key name value => exact ⟨hbefore.parent, hbefore.vertex, forall_mem_none⟩
  | getVertices id =>
    cases hid : w.graph.vertexAt id with
    | none => simpa [SchemaRegistry.answer, hid, Progress.after] using hbefore
    | some vertex =>
      simp only [SchemaRegistry.answer, hid, Option.map_some, Progress.after]
      refine ⟨fun i hi => ?_, hbefore.vertex, hbefore.edge⟩
      cases hi
      exact hid ▸ Option.some_ne_none _
  | topicOrExchangeExists name => exact hallows.elim
  | replicateMessage event => exact hallows.elim
  | ack => exact hallows.elim
  | _ => exact hbefore

/-! ## What is there is read back -/

theorem Readable.createVertex (h : Readable crates g) (id : Uuid) (t : VertexType) :
    Readable crates (g.createVertex id t) where
  vertex i vertex hi name value hvalue := by
    rw [Graph.vertexAt_createVertex] at hi
    split at hi
    · cases hi
      cases hvalue
    · exact h.vertex i vertex hi name value hvalue
  edge := h.edge
  target key hkey := (h.target key hkey).mono (Graph.grows_createVertex id t)

theorem fits_update {props : Props PropName Value} {name other : PropName} {value value' : Value}
    (h : ∀ name value, props name = some value → Fits crates name value) (hfits : Fits crates name value)
    (hvalue : Function.update props name (some value) other = some value') : Fits crates other value' := by
  by_cases hname : other = name
  · subst hname
    rw [Function.update_self] at hvalue
    cases hvalue
    exact hfits
  · rw [Function.update_of_ne hname] at hvalue
    exact h other value' hvalue

theorem Readable.setVertexProperty (h : Readable crates g) {name : PropName} {value : Value}
    (hfits : Fits crates name value) : Readable crates (g.setVertexProperty id name value) where
  vertex i vertex hi other value' hvalue := by
    rw [Graph.vertexAt_setVertexProperty] at hi
    split at hi
    · obtain ⟨before, hbefore, rfl⟩ := Option.map_eq_some_iff.mp hi
      exact fits_update (h.vertex i before hbefore) hfits hvalue
    · exact h.vertex i vertex hi other value' hvalue
  edge := h.edge
  target key hkey := (h.target key hkey).mono (Graph.grows_setVertexProperty id name value)

theorem Readable.createEdge (h : Readable crates g) {key : EdgeKey}
    (htarget : Lacks g key.inboundId key.t.target []) : Readable crates (g.createEdge key) where
  vertex i vertex hi := h.vertex i vertex (by rwa [Graph.vertexAt_createEdge] at hi)
  edge k props hk := by
    rw [Graph.edgeAt_createEdge] at hk
    split at hk
    · cases hk
      exact nofun
    · exact h.edge k props hk
  target k hk := by
    suffices hbefore : Lacks g k.inboundId k.t.target [] from hbefore.mono (Graph.grows_createEdge key)
    rw [Graph.edgeAt_createEdge] at hk
    split at hk
    · rename_i hnew
      exact hnew.1 ▸ htarget
    · exact h.target k hk

theorem Readable.setEdgeProperty (h : Readable crates g) {key : EdgeKey} {value : Value}
    (hfits : Fits crates .version value) : Readable crates (g.setEdgeProperty key .version value) where
  vertex := h.vertex
  edge k props hk value' hvalue := by
    rw [Graph.edgeAt_setEdgeProperty] at hk
    split at hk
    · obtain ⟨before, hbefore, rfl⟩ := Option.map_eq_some_iff.mp hk
      rw [Function.update_self] at hvalue
      cases hvalue
      exact hfits
    · exact h.edge k props hk value' hvalue
  target k hk := by
    refine (h.target k fun hnone => hk ?_).mono (Graph.grows_setEdgeProperty key _ _)
    rw [Graph.edgeAt_setEdgeProperty, hnone]
    split <;> rfl

theorem Readable.answer (h : Readable crates w.graph) (hknows : p.Knows w.graph)
    (hallows : (creationProtocol crates).Allows p q) : Readable crates (answer broker q w).2.graph := by
  cases q with
  | createVertex id t => exact h.createVertex id t
  | createVertexFromType t =>
    rw [SchemaRegistry.answer]
    split
    · exact h.createVertex _ t
    · exact h
  | setVertexProperties id name value => exact h.setVertexProperty hallows.1
  | createEdge key => exact h.createEdge (hknows.vertex _ hallows.2.2.1)
  | setEdgeProperties key name value =>
    obtain ⟨hfits, rfl, -⟩ := hallows
    exact h.setEdgeProperty hfits
  | topicOrExchangeExists name => exact hallows.elim
  | replicateMessage event => exact hallows.elim
  | ack => exact hallows.elim
  | _ => exact h

/-! ## What a reader sees -/

/-- Nothing that the call lists lacks one of its parts. -/
def Call.ListsWhole (g : Graph) : Call → Prop
  | getAllVertexPropertiesOf t => ∀ id name, ¬ (Part.property id t name).MissingIn g
  | getAllEdgeProperties .schemaDefinition => ∀ key, ¬ (Part.version key).MissingIn g
  | _ => True

theorem Readable.wholeAnswer (h : Readable crates w.graph) (hlists : q.ListsWhole w.graph) :
    WholeAnswer crates q (SchemaRegistry.answer broker q w).1 := by
  cases q with
  | getEdgeProperties id t name =>
    cases name with
    | version =>
      intro entry hentry
      obtain ⟨⟨key, props⟩, hedge, heq⟩ := List.mem_filterMap.mp hentry
      obtain ⟨value, hvalue, rfl⟩ := Option.map_eq_some_iff.mp heq
      exact h.edge key props (Graph.mem_outbound.mp hedge).2.2 value hvalue
    | _ => trivial
  | getAllVertexPropertiesOf t =>
    intro entry hentry
    obtain ⟨id, t', props⟩ := entry
    obtain ⟨hvertex, rfl⟩ := Graph.mem_verticesOf.mp hentry
    refine ⟨rfl, fun name hname => ?_⟩
    obtain ⟨value, hvalue⟩ : ∃ value, props name = some value := Option.ne_none_iff_exists'.mp
      fun hnone => hlists id name ⟨hname, props, hvertex, hnone⟩
    exact ⟨value, hvalue, h.vertex id _ hvertex name value hvalue⟩
  | getOutboundVertexProperties id t =>
    intro entry hentry
    obtain ⟨⟨key, edge⟩, hedge, heq⟩ := List.mem_filterMap.mp hentry
    obtain ⟨vertex, hvertex, rfl⟩ := Option.map_eq_some_iff.mp heq
    obtain ⟨-, rfl, hkey⟩ := Graph.mem_outbound.mp hedge
    obtain ⟨props, hprops, hown⟩ := h.target key (hkey ▸ Option.some_ne_none _)
    dsimp only at hvertex
    rw [hprops, Option.some.injEq] at hvertex
    subst hvertex
    refine ⟨rfl, fun name hname => ?_⟩
    obtain ⟨value, hvalue⟩ : ∃ value, props name = some value := Option.ne_none_iff_exists'.mp
      fun hnone => List.not_mem_nil (hown name hname hnone)
    exact ⟨value, hvalue, h.vertex _ _ hprops name value hvalue⟩
  | getAllEdgeProperties t =>
    cases t with
    | schemaDefinition =>
      intro edge hedge
      obtain ⟨key, props⟩ := edge
      obtain ⟨hkey, ht⟩ := Graph.mem_edgesOf.mp hedge
      obtain ⟨value, hvalue⟩ : ∃ value, props .version = some value := Option.ne_none_iff_exists'.mp
        fun hnone => hlists key ⟨ht, props, hkey, hnone⟩
      exact ⟨value, hvalue, h.edge key props hkey value hvalue⟩
    | schemaView => trivial
  | _ => trivial

/-- A schema with a version has a definition. -/
theorem Readable.latestDefinition (h : Readable crates g) (hid : Versioned g id) :
    ∃ definition, SchemaRegistry.latestDefinition crates g (.any id) = .ok definition := by
  have hversion (d : Uuid) (value : Value) (hvalue : versionValue g id d = some value) :
      ∃ version, crates.versionOfValue value = some version := by
    obtain ⟨props, hprops, hset⟩ := Option.bind_eq_some_iff.mp hvalue
    exact Option.ne_none_iff_exists'.mp (h.edge _ props hprops value hset)
  obtain ⟨found, hfound⟩ := versions_eq_ok_iff.mpr fun d value hvalue =>
    Option.isSome_iff_exists.mpr (hversion d value hvalue)
  obtain ⟨x, hx⟩ : ∃ x, maxByVersion found = some x := by
    obtain ⟨d, hd⟩ := hid
    obtain ⟨value, hvalue⟩ := Option.ne_none_iff_exists'.mp hd
    obtain ⟨version, hparsed⟩ := hversion d value hvalue
    have hmem : (version, d) ∈ found := (mem_versions hfound).mpr (by rw [hvalue]; exact hparsed)
    refine Option.ne_none_iff_exists'.mp fun hnone => ?_
    rw [maxByVersion_eq_none.mp hnone] at hmem
    exact List.not_mem_nil hmem
  obtain ⟨value, hvalue⟩ : ∃ value, definitionAt g x.2 = some value := by
    obtain ⟨value, hvalue, -⟩ := Option.bind_eq_some_iff.mp
      ((mem_versions hfound).mp (le_maxByVersion hx).1)
    obtain ⟨props, hprops, -⟩ := Option.bind_eq_some_iff.mp hvalue
    obtain ⟨own, hown, hall⟩ := h.target (schemaDefinitionKey id x.2) (hprops ▸ Option.some_ne_none _)
    refine Option.ne_none_iff_exists'.mp fun hnone => ?_
    have hown : g.vertexAt x.2 = some ⟨.definition, own⟩ := hown
    rw [definitionAt, hown] at hnone
    exact List.not_mem_nil (hall .definition (List.mem_singleton_self _) hnone)
  have hlatest := latestValue_eq_ok.mpr ⟨found, x, hfound, hx, hvalue⟩
  rw [latestValue] at hlatest
  cases hdefinition : SchemaRegistry.latestDefinition crates g (.any id) with
  | error e =>
    rw [hdefinition] at hlatest
    cases hlatest
  | ok definition => exact ⟨definition, rfl⟩

/-! ## A database in which nothing was begun -/

theorem EncodedVertex.fits {vertex : Vertex} (h : EncodedVertex vertex) {name : PropName} {value : Value}
    (hvalue : vertex.props name = some value) : Fits crates name value := by
  cases h <;> cases name <;> cases hvalue <;> simp [Fits, Value.asStr, SchemaType.ofValue_text]

theorem EncodedEdge.version {key : EdgeKey} {props : Props PropName Value}
    (h : EncodedEdge crates key props) :
    (key.t = .schemaDefinition → props .version ≠ none) ∧
      ∀ value, props .version = some value → Fits crates .version value := by
  cases h with
  | definition readsBack =>
    refine ⟨fun _ => Option.some_ne_none _, fun value hvalue => ?_⟩
    cases hvalue
    rw [Fits, versionOfValue_show readsBack]
    exact Option.some_ne_none _
  | view =>
    refine ⟨fun ht => ?_, fun value hvalue => ?_⟩
    · cases ht
    · cases hvalue

theorem HasType.lacks (h : HasType g id t) (htyped : WellTyped g) : Lacks g id t [] := by
  obtain ⟨props, hprops⟩ := h
  refine ⟨props, hprops, fun name hname hnone => ?_⟩
  exact absurd hnone ((htyped.ownProperties id _ hprops name).mpr hname)

theorem Encoded.readable (h : Encoded crates g) (htyped : WellTyped g) : Readable crates g where
  vertex id vertex hid _ _ hvalue := (h.vertex id vertex hid).fits hvalue
  edge key props hkey := (h.edge key props hkey).version.2
  target key hkey := by
    obtain ⟨props, hprops⟩ := Option.ne_none_iff_exists'.mp hkey
    cases h.edge key props hprops with
    | definition _ => exact (htyped.definitionEdge _ _ hkey).2.lacks htyped
    | view => exact (htyped.viewEdge _ _ hkey).2.lacks htyped

theorem Encoded.not_missing (h : Encoded crates g) (htyped : WellTyped g) (part : Part) :
    ¬ part.MissingIn g := by
  cases part with
  | property id t name =>
    rintro ⟨hname, props, hprops, hnone⟩
    exact (htyped.ownProperties id _ hprops name).mpr hname hnone
  | version key =>
    rintro ⟨ht, props, hprops, hnone⟩
    exact (h.edge key props hprops).version.1 ht hnone
  | definition id =>
    rintro ⟨hschema, hnot⟩
    obtain ⟨d, hd⟩ := htyped.schemaDefined id hschema
    obtain ⟨props, hprops⟩ := Option.ne_none_iff_exists'.mp hd
    exact hnot (versioned_iff.mpr ⟨d, props, hprops, (h.edge _ props hprops).version.1 rfl⟩)

end Graphs
end CommonDataLayer.SchemaRegistry
