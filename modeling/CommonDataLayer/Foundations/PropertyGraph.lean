import Mathlib.Data.Set.Card
import Mathlib.Logic.Equiv.Basic
import Mathlib.Logic.Function.Basic
import Std.Data.ExtTreeMap.Lemmas

/-! # Property graphs

A store of typed vertices and typed directed edges, each with named properties, as a graph database
offers it: creating does not overwrite, an edge needs both its vertices, and setting a property of
something that is not there does nothing.

* `Graph.createVertex`, `setVertexProperty`, `createEdge`, `setEdgeProperty`, each with what it does
  to `vertexAt` and `edgeAt`; `putVertex` and `putEdge` create and set all properties.
* `Grows g g'`: nothing of the first graph is missing in the second one, as after every operation.
* `outbound`: the edges of one type that leave a vertex. It depends on these edges only.
* `putVertices`, `putEdges`: a graph is what its vertices and edges give, put into the empty one;
  `edgeAt_putEdges_iff` says when no edge is lost.
* `Iso σ g g'`: the graphs are equal up to the renaming `σ` of the vertices; every operation keeps
  two graphs isomorphic when its arguments are renamed.
-/
namespace PropertyGraph
open Std
set_option autoImplicit false
set_option linter.unusedSectionVars false

variable {I T E P X : Type}

abbrev Props (P X : Type) : Type := P → Option X

/-- Sets properties, later ones last. -/
def Props.setAll [DecidableEq P] (props : Props P X) (values : List (P × X)) : Props P X :=
  values.foldl (fun props value => Function.update props value.1 (some value.2)) props

theorem Props.setAll_ne_none [DecidableEq P] {props : Props P X} {values : List (P × X)} {name : P} :
    props.setAll values name ≠ none ↔ props name ≠ none ∨ name ∈ values.map (·.1) := by
  unfold Props.setAll
  induction values generalizing props with
  | nil => simp
  | cons value values ih =>
    rw [List.foldl_cons, ih, List.map_cons, List.mem_cons]
    by_cases h : name = value.1
    · subst h
      simp
    · simp [h]

theorem Props.setAll_of_notMem [DecidableEq P] {props : Props P X} {values : List (P × X)}
    {name : P} (h : name ∉ values.map (·.1)) : props.setAll values name = props name := by
  unfold Props.setAll
  induction values generalizing props with
  | nil => rfl
  | cons value values ih =>
    rw [List.map_cons, List.mem_cons, not_or] at h
    rw [List.foldl_cons, ih h.2, Function.update_of_ne h.1]

theorem Props.setAll_of_mem [DecidableEq P] {props : Props P X} {values : List (P × X)} {value : P × X}
    (hnames : (values.map (·.1)).Nodup) (h : value ∈ values) :
    props.setAll values value.1 = some value.2 := by
  induction values generalizing props with
  | nil => cases h
  | cons first values ih =>
    rw [List.map_cons, List.nodup_cons] at hnames
    rcases List.mem_cons.mp h with rfl | h
    · have hlast : Props.setAll (Function.update props value.1 (some value.2)) values value.1 = _ :=
        Props.setAll_of_notMem hnames.1
      exact hlast.trans (Function.update_self _ _ _)
    · exact ih hnames.2 h

theorem Props.setAll_append [DecidableEq P] {props : Props P X} (first second : List (P × X)) :
    props.setAll (first ++ second) = (props.setAll first).setAll second :=
  List.foldl_append

/-- What was there before matters only to a property that is not set. -/
theorem Props.setAll_congr [DecidableEq P] {props props' : Props P X} {values : List (P × X)}
    {name : P} (h : name ∉ values.map (·.1) → props name = props' name) :
    props.setAll values name = props'.setAll values name := by
  induction values generalizing props props' with
  | nil => exact h List.not_mem_nil
  | cons value values ih =>
    refine @ih (Function.update props _ _) (Function.update props' _ _) fun hlater => ?_
    by_cases hname : name = value.1
    · subst hname
      rw [Function.update_self, Function.update_self]
    · rw [Function.update_of_ne hname, Function.update_of_ne hname]
      refine h ?_
      rw [List.map_cons, List.mem_cons, not_or]
      exact ⟨hname, hlater⟩

/-- The last values decide, so that setting all values again changes nothing. -/
theorem Props.setAll_again [DecidableEq P] {props : Props P X} {earlier : List (P × X)}
    (h : props.setAll earlier = props) (later : List (P × X)) :
    (props.setAll later).setAll (earlier ++ later) = props.setAll later := by
  rw [Props.setAll_append]
  funext name
  refine Props.setAll_congr fun hname => ?_
  calc (props.setAll later).setAll earlier name
      = props.setAll earlier name := Props.setAll_congr fun _ => Props.setAll_of_notMem hname
    _ = props name := congrFun h name

theorem Props.setAll_cases [DecidableEq P] {props : Props P X} (values : List (P × X)) (name : P) :
    props.setAll values name = props name ∨
      ∃ value ∈ values, props.setAll values name = some value.2 := by
  induction values generalizing props with
  | nil => exact Or.inl rfl
  | cons value values ih =>
    rcases @ih (Function.update props value.1 (some value.2)) with h | ⟨later, hmem, h⟩
    · by_cases hname : name = value.1
      · subst hname
        exact Or.inr ⟨value, List.mem_cons_self, h.trans (Function.update_self _ _ _)⟩
      · exact Or.inl (h.trans (Function.update_of_ne hname _ _))
    · exact Or.inr ⟨later, List.mem_cons_of_mem _ hmem, h⟩

/-- Setting values that are there already. -/
theorem Props.setAll_eq_self [DecidableEq P] {props : Props P X} {values : List (P × X)}
    (hnames : (values.map (·.1)).Nodup) :
    props.setAll values = props ↔ ∀ value ∈ values, props value.1 = some value.2 := by
  constructor
  · intro h value hvalue
    have hset : props.setAll values value.1 = some value.2 := Props.setAll_of_mem hnames hvalue
    rw [← hset, h]
  · intro h
    funext name
    by_cases hname : name ∈ values.map (·.1)
    · obtain ⟨value, hvalue, rfl⟩ := List.mem_map.mp hname
      rw [Props.setAll_of_mem hnames hvalue, h value hvalue]
    · exact Props.setAll_of_notMem hname

structure Vertex (T P X : Type) where
  t : T
  props : Props P X

structure EdgeKey (I E : Type) where
  outboundId : I
  t : E
  inboundId : I
  deriving DecidableEq

namespace EdgeKey

def map {J : Type} (f : I → J) (key : EdgeKey I E) : EdgeKey J E :=
  { outboundId := f key.outboundId, t := key.t, inboundId := f key.inboundId }

instance [Ord I] [Ord E] : Ord (EdgeKey I E) where
  compare := compareLex (compareOn outboundId) (compareLex (compareOn t) (compareOn inboundId))

instance [Ord I] [Ord E] [TransOrd I] [TransOrd E] : TransOrd (EdgeKey I E) :=
  inferInstanceAs <| TransCmp (compareLex _ (compareLex _ _))

instance [Ord I] [Ord E] [TransOrd I] [TransOrd E] [LawfulEqOrd I] [LawfulEqOrd E] :
    LawfulEqOrd (EdgeKey I E) where
  compare_self := ReflCmp.compare_self
  eq_of_compare {a b} h := by
    simp only [compare, compareLex_eq_eq, compareOn] at h
    cases a
    cases b
    rw [mk.injEq]
    exact ⟨LawfulEqOrd.eq_of_compare h.1, LawfulEqOrd.eq_of_compare h.2.1,
      LawfulEqOrd.eq_of_compare h.2.2⟩

end EdgeKey

variable [Ord I] [TransOrd I] [LawfulEqOrd I] [Ord E] [TransOrd E] [LawfulEqOrd E]

structure Graph (I T E P X : Type) [Ord I] [TransOrd I] [LawfulEqOrd I] [Ord E] [TransOrd E]
    [LawfulEqOrd E] where
  vertices : ExtTreeMap I (Vertex T P X)
  edges : ExtTreeMap (EdgeKey I E) (Props P X)
  endpoints : ∀ key ∈ edges, key.outboundId ∈ vertices ∧ key.inboundId ∈ vertices

namespace Graph

def empty : Graph I T E P X :=
  { vertices := ∅, edges := ∅, endpoints := fun _ h => absurd h ExtTreeMap.not_mem_empty }

def vertexAt (g : Graph I T E P X) (id : I) : Option (Vertex T P X) := g.vertices[id]?

def edgeAt (g : Graph I T E P X) (key : EdgeKey I E) : Option (Props P X) := g.edges[key]?

/-- A property of a vertex. -/
def propertyAt (g : Graph I T E P X) (id : I) (name : P) : Option X :=
  (g.vertexAt id).bind (·.props name)

theorem mem_vertices {g : Graph I T E P X} {id : I} : id ∈ g.vertices ↔ g.vertexAt id ≠ none := by
  rw [ExtTreeMap.mem_iff_isSome_getElem?, Option.isSome_iff_ne_none]
  rfl

/-- The vertices of an edge exist. -/
theorem endpoints_of_edgeAt {g : Graph I T E P X} {key : EdgeKey I E} (h : g.edgeAt key ≠ none) :
    g.vertexAt key.outboundId ≠ none ∧ g.vertexAt key.inboundId ≠ none := by
  have hmem : key ∈ g.edges :=
    ExtTreeMap.mem_iff_isSome_getElem?.mpr (Option.isSome_iff_ne_none.mpr h)
  exact ⟨mem_vertices.mp (g.endpoints key hmem).1, mem_vertices.mp (g.endpoints key hmem).2⟩

theorem edgeAt_eq_none {g : Graph I T E P X} {key : EdgeKey I E}
    (h : g.vertexAt key.outboundId = none ∨ g.vertexAt key.inboundId = none) :
    g.edgeAt key = none := by
  by_contra hne
  obtain ⟨hout, hin⟩ := endpoints_of_edgeAt hne
  exact h.elim hout hin

theorem ext_lookup {g g' : Graph I T E P X} (hv : ∀ id, g.vertexAt id = g'.vertexAt id)
    (he : ∀ key, g.edgeAt key = g'.edgeAt key) : g = g' := by
  cases g
  cases g'
  have hvertices := ExtTreeMap.ext_getElem? hv
  have hedges := ExtTreeMap.ext_getElem? he
  simp only at hvertices hedges
  subst hvertices hedges
  rfl

/-! ## Operations -/

section Operations
variable [DecidableEq P]

/-- Creates a vertex, unless the identifier is taken. -/
def createVertex (g : Graph I T E P X) (id : I) (t : T) : Graph I T E P X :=
  { vertices := g.vertices.insertIfNew id { t := t, props := fun _ => none }
    edges := g.edges
    endpoints := fun key h => by
      have hkey := g.endpoints key h
      simp only [ExtTreeMap.mem_insertIfNew]
      exact ⟨.inr hkey.1, .inr hkey.2⟩ }

def setVertexProperty (g : Graph I T E P X) (id : I) (name : P) (value : X) : Graph I T E P X :=
  { vertices := g.vertices.modify id fun vertex =>
      { vertex with props := Function.update vertex.props name (some value) }
    edges := g.edges
    endpoints := fun key h => by simpa only [ExtTreeMap.mem_modify] using g.endpoints key h }

/-- Creates an edge, unless a vertex is missing; an edge that exists keeps its properties. -/
def createEdge (g : Graph I T E P X) (key : EdgeKey I E) : Graph I T E P X :=
  if h : key.outboundId ∈ g.vertices ∧ key.inboundId ∈ g.vertices then
    { vertices := g.vertices
      edges := g.edges.insertIfNew key fun _ => none
      endpoints := fun other hother => by
        rcases ExtTreeMap.mem_insertIfNew.mp hother with heq | hmem
        · rw [← Std.compare_eq_iff_eq.mp heq]
          exact h
        · exact g.endpoints other hmem }
  else g

def setEdgeProperty (g : Graph I T E P X) (key : EdgeKey I E) (name : P) (value : X) :
    Graph I T E P X :=
  { vertices := g.vertices
    edges := g.edges.modify key fun props => Function.update props name (some value)
    endpoints := fun other h => g.endpoints other (ExtTreeMap.mem_modify.mp h) }

def setVertexProperties (g : Graph I T E P X) (id : I) (values : List (P × X)) :
    Graph I T E P X :=
  values.foldl (fun g value => g.setVertexProperty id value.1 value.2) g

def setEdgeProperties (g : Graph I T E P X) (key : EdgeKey I E) (values : List (P × X)) :
    Graph I T E P X :=
  values.foldl (fun g value => g.setEdgeProperty key value.1 value.2) g

def putVertex (g : Graph I T E P X) (id : I) (t : T) (values : List (P × X)) : Graph I T E P X :=
  (g.createVertex id t).setVertexProperties id values

def putEdge (g : Graph I T E P X) (key : EdgeKey I E) (values : List (P × X)) : Graph I T E P X :=
  (g.createEdge key).setEdgeProperties key values

end Operations

/-! ## Lookups after an operation -/

section Lookups
variable [DecidableEq P] [DecidableEq I] [DecidableEq E] (g : Graph I T E P X)

@[simp] theorem vertexAt_empty (id : I) : (empty : Graph I T E P X).vertexAt id = none :=
  ExtTreeMap.getElem?_empty

@[simp] theorem edgeAt_empty (key : EdgeKey I E) : (empty : Graph I T E P X).edgeAt key = none :=
  ExtTreeMap.getElem?_empty

theorem vertexAt_createVertex (id i : I) (t : T) : (g.createVertex id t).vertexAt i =
    if id = i ∧ g.vertexAt i = none then some { t := t, props := fun _ => none }
    else g.vertexAt i := by
  unfold vertexAt createVertex
  simp only [ExtTreeMap.getElem?_insertIfNew, Std.compare_eq_iff_eq]
  by_cases h : id = i
  · subst h
    simp only [true_and, ExtTreeMap.mem_iff_isSome_getElem?]
    cases g.vertices[id]? <;> simp
  · simp [h]

@[simp] theorem edgeAt_createVertex (id : I) (t : T) (key : EdgeKey I E) :
    (g.createVertex id t).edgeAt key = g.edgeAt key := rfl

theorem vertexAt_setVertexProperty (id i : I) (name : P) (value : X) :
    (g.setVertexProperty id name value).vertexAt i =
      if id = i then (g.vertexAt i).map fun vertex =>
        { vertex with props := Function.update vertex.props name (some value) }
      else g.vertexAt i := by
  unfold vertexAt setVertexProperty
  simp only [ExtTreeMap.getElem?_modify, Std.compare_eq_iff_eq]
  by_cases h : id = i
  · subst h
    simp
  · simp [h]

@[simp] theorem edgeAt_setVertexProperty (id : I) (name : P) (value : X) (key : EdgeKey I E) :
    (g.setVertexProperty id name value).edgeAt key = g.edgeAt key := rfl

@[simp] theorem vertexAt_createEdge (key : EdgeKey I E) (i : I) :
    (g.createEdge key).vertexAt i = g.vertexAt i := by
  unfold createEdge
  split <;> rfl

theorem edgeAt_createEdge (key k : EdgeKey I E) : (g.createEdge key).edgeAt k =
    if key = k ∧ g.vertexAt k.outboundId ≠ none ∧ g.vertexAt k.inboundId ≠ none ∧
      g.edgeAt k = none then some fun _ => none
    else g.edgeAt k := by
  unfold createEdge
  by_cases hk : key = k
  · subst hk
    simp only [true_and, mem_vertices]
    split
    · rename_i h
      unfold edgeAt
      simp only [ExtTreeMap.getElem?_insertIfNew, compare_self, true_and,
        ExtTreeMap.mem_iff_isSome_getElem?, h.1, h.2, not_false_eq_true, ne_eq]
      cases g.edges[key]? <;> simp
    · rename_i h
      rw [if_neg fun h' => h ⟨h'.1, h'.2.1⟩]
  · split
    · simp [edgeAt, ExtTreeMap.getElem?_insertIfNew, hk]
    · simp [hk]

@[simp] theorem vertexAt_setEdgeProperty (key : EdgeKey I E) (name : P) (value : X) (i : I) :
    (g.setEdgeProperty key name value).vertexAt i = g.vertexAt i := rfl

theorem edgeAt_setEdgeProperty (key k : EdgeKey I E) (name : P) (value : X) :
    (g.setEdgeProperty key name value).edgeAt k =
      if key = k then (g.edgeAt k).map fun props => Function.update props name (some value)
      else g.edgeAt k := by
  unfold edgeAt setEdgeProperty
  simp only [ExtTreeMap.getElem?_modify, Std.compare_eq_iff_eq]
  by_cases h : key = k
  · subst h
    simp
  · simp [h]

theorem vertexAt_setVertexProperties (id i : I) (values : List (P × X)) :
    (g.setVertexProperties id values).vertexAt i =
      if id = i then (g.vertexAt i).map fun vertex =>
        { vertex with props := vertex.props.setAll values }
      else g.vertexAt i := by
  unfold setVertexProperties Props.setAll
  induction values generalizing g with
  | nil => by_cases h : id = i <;> simp [h]
  | cons value values ih =>
    rw [List.foldl_cons, ih, vertexAt_setVertexProperty]
    by_cases h : id = i
    · rw [if_pos h, if_pos h, if_pos h, Option.map_map]
      rfl
    · rw [if_neg h, if_neg h, if_neg h]

theorem propertyAt_setVertexProperties {id i : I} {values : List (P × X)} {name : P}
    (h : id = i → name ∉ values.map (·.1)) :
    (g.setVertexProperties id values).propertyAt i name = g.propertyAt i name := by
  rw [propertyAt, propertyAt, vertexAt_setVertexProperties]
  split
  · cases g.vertexAt i with
    | none => rfl
    | some vertex => exact Props.setAll_of_notMem (h ‹_›)
  · rfl

theorem propertyAt_setVertexProperty {id : I} (h : g.vertexAt id ≠ none) (name : P) (value : X) :
    (g.setVertexProperty id name value).propertyAt id name = some value := by
  obtain ⟨vertex, hvertex⟩ := Option.ne_none_iff_exists'.mp h
  rw [propertyAt, vertexAt_setVertexProperty, if_pos rfl, hvertex]
  exact Function.update_self _ _ _

theorem propertyAt_setVertexProperty_ne {id i : I} {name other : P} (h : id = i → name ≠ other)
    (value : X) : (g.setVertexProperty id name value).propertyAt i other = g.propertyAt i other := by
  have hvalues : id = i → other ∉ [(name, value)].map (·.1) := fun hid hmem =>
    h hid (List.mem_singleton.mp hmem).symm
  exact propertyAt_setVertexProperties g hvalues

theorem setVertexProperties_append (id : I) (first second : List (P × X)) :
    g.setVertexProperties id (first ++ second) =
      (g.setVertexProperties id first).setVertexProperties id second :=
  List.foldl_append

@[simp] theorem edgeAt_setVertexProperties (id : I) (values : List (P × X)) (key : EdgeKey I E) :
    (g.setVertexProperties id values).edgeAt key = g.edgeAt key := by
  unfold setVertexProperties
  induction values generalizing g with
  | nil => rfl
  | cons value values ih => rw [List.foldl_cons, ih, edgeAt_setVertexProperty]

theorem edgeAt_setEdgeProperties (key k : EdgeKey I E) (values : List (P × X)) :
    (g.setEdgeProperties key values).edgeAt k =
      if key = k then (g.edgeAt k).map fun props => props.setAll values else g.edgeAt k := by
  unfold setEdgeProperties Props.setAll
  induction values generalizing g with
  | nil => by_cases h : key = k <;> simp [h]
  | cons value values ih =>
    rw [List.foldl_cons, ih, edgeAt_setEdgeProperty]
    by_cases h : key = k
    · rw [if_pos h, if_pos h, if_pos h, Option.map_map]
      rfl
    · rw [if_neg h, if_neg h, if_neg h]

@[simp] theorem vertexAt_setEdgeProperties (key : EdgeKey I E) (values : List (P × X)) (i : I) :
    (g.setEdgeProperties key values).vertexAt i = g.vertexAt i := by
  unfold setEdgeProperties
  induction values generalizing g with
  | nil => rfl
  | cons value values ih => rw [List.foldl_cons, ih, vertexAt_setEdgeProperty]

/-- The properties of a new vertex or edge. -/
def propsOf (values : List (P × X)) : Props P X := Props.setAll (fun _ => none) values

theorem propsOf_ne_none {values : List (P × X)} {name : P} :
    propsOf values name ≠ none ↔ name ∈ values.map (·.1) := by
  rw [propsOf, Props.setAll_ne_none, or_iff_right (not_not.mpr rfl)]

theorem vertexAt_putVertex {id : I} (h : g.vertexAt id = none) (i : I) (t : T)
    (values : List (P × X)) : (g.putVertex id t values).vertexAt i =
      if id = i then some { t := t, props := propsOf values } else g.vertexAt i := by
  unfold putVertex
  rw [vertexAt_setVertexProperties, vertexAt_createVertex]
  by_cases hi : id = i
  · subst hi
    simp [h, propsOf]
  · simp [hi]

@[simp] theorem edgeAt_putVertex (id : I) (t : T) (values : List (P × X)) (key : EdgeKey I E) :
    (g.putVertex id t values).edgeAt key = g.edgeAt key := by
  unfold putVertex
  rw [edgeAt_setVertexProperties, edgeAt_createVertex]

@[simp] theorem vertexAt_putEdge (key : EdgeKey I E) (values : List (P × X)) (i : I) :
    (g.putEdge key values).vertexAt i = g.vertexAt i := by
  unfold putEdge
  rw [vertexAt_setEdgeProperties, vertexAt_createEdge]

/-- An edge that is put between two vertices and was not there, or was there as it is put. -/
theorem edgeAt_putEdge_again {key : EdgeKey I E} {values : List (P × X)}
    (hout : g.vertexAt key.outboundId ≠ none) (hin : g.vertexAt key.inboundId ≠ none)
    (hbefore : g.edgeAt key = none ∨ g.edgeAt key = some (propsOf values)) (k : EdgeKey I E) :
    (g.putEdge key values).edgeAt k = if key = k then some (propsOf values) else g.edgeAt k := by
  unfold putEdge
  rw [edgeAt_setEdgeProperties, edgeAt_createEdge]
  by_cases hk : key = k
  · subst hk
    rcases hbefore with hbefore | hbefore
    · simp [hout, hin, hbefore, propsOf]
    · have hnothing : Props.setAll (fun _ => none : Props P X) [] = fun _ => none := rfl
      have hagain : (propsOf values).setAll values = propsOf values :=
        Props.setAll_again hnothing values
      simp [hbefore, hagain]
  · simp [hk]

theorem edgeAt_putEdge {key : EdgeKey I E} (hout : g.vertexAt key.outboundId ≠ none)
    (hin : g.vertexAt key.inboundId ≠ none) (hnew : g.edgeAt key = none)
    (values : List (P × X)) (k : EdgeKey I E) : (g.putEdge key values).edgeAt k =
      if key = k then some (propsOf values) else g.edgeAt k :=
  g.edgeAt_putEdge_again hout hin (.inl hnew) k

end Lookups

/-! ## Nothing is taken away -/

/-- The vertices and the edges of the first graph are in the second one, with all their properties. -/
structure Grows (g g' : Graph I T E P X) : Prop where
  vertex (id : I) (t : T) (props : Props P X) : g.vertexAt id = some ⟨t, props⟩ →
    ∃ props', g'.vertexAt id = some ⟨t, props'⟩ ∧ ∀ name, props name ≠ none → props' name ≠ none
  edge (key : EdgeKey I E) (props : Props P X) : g.edgeAt key = some props →
    ∃ props', g'.edgeAt key = some props' ∧ ∀ name, props name ≠ none → props' name ≠ none

section Growth
variable [DecidableEq P] [DecidableEq I] [DecidableEq E] {g g' : Graph I T E P X}

theorem Grows.refl (g : Graph I T E P X) : g.Grows g :=
  ⟨fun _ _ props h => ⟨props, h, fun _ h => h⟩, fun _ props h => ⟨props, h, fun _ h => h⟩⟩

theorem Grows.vertexAt (h : g.Grows g') {id : I} (hid : g.vertexAt id ≠ none) :
    g'.vertexAt id ≠ none := by
  obtain ⟨⟨t, props⟩, hvertex⟩ := Option.ne_none_iff_exists'.mp hid
  obtain ⟨props', hprops', -⟩ := h.vertex id t props hvertex
  exact hprops' ▸ Option.some_ne_none _

theorem Grows.edgeAt (h : g.Grows g') {key : EdgeKey I E} (hkey : g.edgeAt key ≠ none) :
    g'.edgeAt key ≠ none := by
  obtain ⟨props, hprops⟩ := Option.ne_none_iff_exists'.mp hkey
  obtain ⟨props', hprops', -⟩ := h.edge key props hprops
  exact hprops' ▸ Option.some_ne_none _

theorem update_ne_none {props : Props P X} {name other : P} {value : X} (h : props other ≠ none) :
    Function.update props name (some value) other ≠ none := by
  by_cases hname : other = name
  · subst hname
    simp
  · rwa [Function.update_of_ne hname]

theorem grows_createVertex (id : I) (t : T) : g.Grows (g.createVertex id t) where
  vertex i t' props hi := by
    refine ⟨props, ?_, fun _ h => h⟩
    rw [vertexAt_createVertex, if_neg fun h => ?_, hi]
    rw [hi] at h
    cases h.2
  edge _ props h := ⟨props, h, fun _ h => h⟩

theorem grows_setVertexProperty (id : I) (name : P) (value : X) :
    g.Grows (g.setVertexProperty id name value) where
  vertex i t props hi := by
    rw [vertexAt_setVertexProperty, hi]
    split
    · exact ⟨_, rfl, fun _ => update_ne_none⟩
    · exact ⟨props, rfl, fun _ h => h⟩
  edge _ props h := ⟨props, h, fun _ h => h⟩

theorem grows_createEdge (key : EdgeKey I E) : g.Grows (g.createEdge key) where
  vertex i t props hi := ⟨props, by rwa [vertexAt_createEdge], fun _ h => h⟩
  edge k props hk := by
    refine ⟨props, ?_, fun _ h => h⟩
    rw [edgeAt_createEdge, if_neg fun h => ?_, hk]
    rw [hk] at h
    cases h.2.2.2

theorem grows_setEdgeProperty (key : EdgeKey I E) (name : P) (value : X) :
    g.Grows (g.setEdgeProperty key name value) where
  vertex _ _ props h := ⟨props, h, fun _ h => h⟩
  edge k props hk := by
    rw [edgeAt_setEdgeProperty, hk]
    split
    · exact ⟨_, rfl, fun _ => update_ne_none⟩
    · exact ⟨props, rfl, fun _ h => h⟩

end Growth

/-! ## Queries -/

section Queries
variable [DecidableEq I] [DecidableEq E]

/-- The edges of a type that leave a vertex, in key order. -/
def outbound (g : Graph I T E P X) (id : I) (t : E) : List (EdgeKey I E × Props P X) :=
  g.edges.toList.filter fun edge => edge.1.outboundId = id ∧ edge.1.t = t

/-- The vertices of a type, in key order. -/
def verticesOf [DecidableEq T] (g : Graph I T E P X) (t : T) : List (I × Vertex T P X) :=
  g.vertices.toList.filter fun vertex => vertex.2.t = t

/-- The edges of a type, in key order. -/
def edgesOf (g : Graph I T E P X) (t : E) : List (EdgeKey I E × Props P X) :=
  g.edges.toList.filter fun edge => edge.1.t = t

theorem mem_verticesOf [DecidableEq T] {g : Graph I T E P X} {t : T} {id : I}
    {vertex : Vertex T P X} :
    (id, vertex) ∈ g.verticesOf t ↔ g.vertexAt id = some vertex ∧ vertex.t = t := by
  unfold verticesOf vertexAt
  rw [List.mem_filter, ExtTreeMap.mem_toList_iff_getElem?_eq_some, decide_eq_true_eq]

theorem mem_edgesOf {g : Graph I T E P X} {t : E} {key : EdgeKey I E} {props : Props P X} :
    (key, props) ∈ g.edgesOf t ↔ g.edgeAt key = some props ∧ key.t = t := by
  unfold edgesOf edgeAt
  rw [List.mem_filter, ExtTreeMap.mem_toList_iff_getElem?_eq_some, decide_eq_true_eq]

theorem nodup_verticesOf [DecidableEq T] (g : Graph I T E P X) (t : T) :
    ((g.verticesOf t).map (·.1)).Nodup := by
  refine List.pairwise_map.mpr ((ExtTreeMap.ordered_keys_toList.sublist List.filter_sublist).imp ?_)
  intro a b hlt heq
  rw [heq, compare_self] at hlt
  cases hlt

theorem nodup_edgesOf (g : Graph I T E P X) (t : E) : ((g.edgesOf t).map (·.1)).Nodup := by
  refine List.pairwise_map.mpr ((ExtTreeMap.ordered_keys_toList.sublist List.filter_sublist).imp ?_)
  intro a b hlt heq
  rw [heq, compare_self] at hlt
  cases hlt

theorem disjoint_verticesOf [DecidableEq T] (g : Graph I T E P X) {t t' : T} (h : t ≠ t') :
    ((g.verticesOf t).map (·.1)).Disjoint ((g.verticesOf t').map (·.1)) := by
  intro id hid hid'
  obtain ⟨⟨i, vertex⟩, hmem, rfl⟩ := List.mem_map.mp hid
  obtain ⟨⟨j, vertex'⟩, hmem', hj⟩ := List.mem_map.mp hid'
  obtain ⟨hvertex, rfl⟩ := mem_verticesOf.mp hmem
  obtain ⟨hvertex', rfl⟩ := mem_verticesOf.mp hmem'
  dsimp only at hj
  rw [hj, hvertex, Option.some.injEq] at hvertex'
  exact h (congrArg Vertex.t hvertex')

theorem disjoint_edgesOf (g : Graph I T E P X) {t t' : E} (h : t ≠ t') :
    ((g.edgesOf t).map (·.1)).Disjoint ((g.edgesOf t').map (·.1)) := by
  intro key hkey hkey'
  obtain ⟨edge, hmem, rfl⟩ := List.mem_map.mp hkey
  obtain ⟨edge', hmem', heq⟩ := List.mem_map.mp hkey'
  exact h ((mem_edgesOf.mp hmem).2.symm.trans
    ((congrArg EdgeKey.t heq).symm.trans (mem_edgesOf.mp hmem').2))

theorem mem_outbound {g : Graph I T E P X} {id : I} {t : E} {key : EdgeKey I E}
    {props : Props P X} : (key, props) ∈ g.outbound id t ↔
      key.outboundId = id ∧ key.t = t ∧ g.edgeAt key = some props := by
  unfold outbound edgeAt
  rw [List.mem_filter, ExtTreeMap.mem_toList_iff_getElem?_eq_some, decide_eq_true_eq]
  exact ⟨fun h => ⟨h.2.1, h.2.2, h.1⟩, fun h => ⟨h.2.2, h.1, h.2.1⟩⟩

theorem outbound_sorted (g : Graph I T E P X) (id : I) (t : E) :
    (g.outbound id t).Pairwise fun a b => compare a.1 b.1 = .lt :=
  ExtTreeMap.ordered_keys_toList.sublist List.filter_sublist

/-- At most one edge of a type leads from one vertex to another. -/
theorem nodup_outbound (g : Graph I T E P X) (id : I) (t : E) :
    ((g.outbound id t).map (·.1.inboundId)).Nodup := by
  refine List.pairwise_map.mpr ((g.outbound_sorted id t).imp_of_mem fun {a b} ha hb hlt heq => ?_)
  obtain ⟨haid, hat, -⟩ := mem_outbound.mp ha
  obtain ⟨hbid, hbt, -⟩ := mem_outbound.mp hb
  have hkey : a.1 = b.1 := by
    calc a.1 = ⟨id, t, a.1.inboundId⟩ := by rw [← haid, ← hat]
      _ = ⟨id, t, b.1.inboundId⟩ := by rw [heq]
      _ = b.1 := by rw [← hbid, ← hbt]
  rw [hkey, compare_self] at hlt
  cases hlt

theorem outbound_congr {g g' : Graph I T E P X} {id : I} {t : E}
    (h : ∀ key : EdgeKey I E, key.outboundId = id → key.t = t → g.edgeAt key = g'.edgeAt key) :
    g.outbound id t = g'.outbound id t := by
  have hnodup : ∀ g : Graph I T E P X, (g.outbound id t).Nodup := by
    intro g
    refine (g.outbound_sorted id t).imp fun {a b} hlt heq => ?_
    subst heq
    rw [compare_self] at hlt
    cases hlt
  refine List.Perm.eq_of_pairwise ?_ (g.outbound_sorted id t) (g'.outbound_sorted id t) ?_
  · intro a b _ _ hab hba
    rw [OrientedOrd.eq_swap, hba] at hab
    cases hab
  · refine (List.perm_ext_iff_of_nodup (hnodup g) (hnodup g')).mpr fun edge => ?_
    obtain ⟨key, props⟩ := edge
    simp only [mem_outbound]
    refine and_congr_right fun hid => and_congr_right fun ht => ?_
    rw [h key hid ht]

end Queries

/-! ## Rebuilding a graph -/

section Rebuilding
variable [DecidableEq P] [DecidableEq I] [DecidableEq E] {g : Graph I T E P X}
  {vertices : List (I × T × List (P × X))} {edges : List (EdgeKey I E × List (P × X))}

def putVertices (g : Graph I T E P X) (vertices : List (I × T × List (P × X))) : Graph I T E P X :=
  vertices.foldl (fun g vertex => g.putVertex vertex.1 vertex.2.1 vertex.2.2) g

def putEdges (g : Graph I T E P X) (edges : List (EdgeKey I E × List (P × X))) : Graph I T E P X :=
  edges.foldl (fun g edge => g.putEdge edge.1 edge.2) g

@[simp] theorem edgeAt_putVertices (key : EdgeKey I E) :
    (g.putVertices vertices).edgeAt key = g.edgeAt key := by
  unfold putVertices
  induction vertices generalizing g with
  | nil => rfl
  | cons vertex vertices ih => rw [List.foldl_cons, ih, edgeAt_putVertex]

@[simp] theorem vertexAt_putEdges (id : I) :
    (g.putEdges edges).vertexAt id = g.vertexAt id := by
  unfold putEdges
  induction edges generalizing g with
  | nil => rfl
  | cons edge edges ih => rw [List.foldl_cons, ih, vertexAt_putEdge]

/-- New vertices with distinct identifiers. -/
theorem vertexAt_putVertices (hnodup : (vertices.map (·.1)).Nodup)
    (hfree : ∀ vertex ∈ vertices, g.vertexAt vertex.1 = none) :
    (∀ vertex ∈ vertices, (g.putVertices vertices).vertexAt vertex.1 =
        some { t := vertex.2.1, props := propsOf vertex.2.2 }) ∧
      ∀ id ∉ vertices.map (·.1), (g.putVertices vertices).vertexAt id = g.vertexAt id := by
  unfold putVertices
  induction vertices generalizing g with
  | nil => exact ⟨List.forall_mem_nil _, fun _ _ => rfl⟩
  | cons first vertices ih =>
    rw [List.map_cons, List.nodup_cons] at hnodup
    rw [List.forall_mem_cons] at hfree
    have hput := vertexAt_putVertex g hfree.1
    have hrest : ∀ vertex ∈ vertices,
        (g.putVertex first.1 first.2.1 first.2.2).vertexAt vertex.1 = none := by
      intro vertex hvertex
      have hne : first.1 ≠ vertex.1 := fun heq =>
        hnodup.1 (heq ▸ List.mem_map_of_mem hvertex)
      rw [hput, if_neg hne]
      exact hfree.2 vertex hvertex
    obtain ⟨hnew, hother⟩ := ih hnodup.2 hrest
    rw [List.forall_mem_cons, List.foldl_cons]
    refine ⟨⟨?_, hnew⟩, fun id hid => ?_⟩
    · rw [hother first.1 hnodup.1, hput, if_pos rfl]
    · rw [List.map_cons, List.mem_cons, not_or] at hid
      rw [hother id hid.2, hput, if_neg fun heq => hid.1 heq.symm]

/-- New edges between vertices that are there; those with the same key are the same. -/
theorem edgeAt_putEdges (hvertices : ∀ edge ∈ edges, g.vertexAt edge.1.outboundId ≠ none ∧
      g.vertexAt edge.1.inboundId ≠ none)
    (hagree : ∀ edge ∈ edges, ∀ edge' ∈ edges, edge.1 = edge'.1 →
      (propsOf edge.2 : Props P X) = propsOf edge'.2)
    (hbefore : ∀ edge ∈ edges, g.edgeAt edge.1 = none ∨ g.edgeAt edge.1 = some (propsOf edge.2)) :
    (∀ edge ∈ edges, (g.putEdges edges).edgeAt edge.1 = some (propsOf edge.2)) ∧
      ∀ key ∉ edges.map (·.1), (g.putEdges edges).edgeAt key = g.edgeAt key := by
  unfold putEdges
  induction edges generalizing g with
  | nil => exact ⟨List.forall_mem_nil _, fun _ _ => rfl⟩
  | cons first edges ih =>
    rw [List.forall_mem_cons] at hvertices hbefore
    have hput := edgeAt_putEdge_again g hvertices.1.1 hvertices.1.2 hbefore.1
    have hrest : ∀ edge ∈ edges, (g.putEdge first.1 first.2).edgeAt edge.1 = none ∨
        (g.putEdge first.1 first.2).edgeAt edge.1 = some (propsOf edge.2) := by
      intro edge hedge
      rw [hput]
      split
      · next heq =>
        exact .inr (congrArg some (hagree first List.mem_cons_self edge
          (List.mem_cons_of_mem _ hedge) heq))
      · exact hbefore.2 edge hedge
    obtain ⟨hnew, hother⟩ := ih (by simpa using hvertices.2)
      (fun edge hedge edge' hedge' => hagree edge (List.mem_cons_of_mem _ hedge) edge'
        (List.mem_cons_of_mem _ hedge')) hrest
    rw [List.forall_mem_cons, List.foldl_cons]
    refine ⟨⟨?_, hnew⟩, fun key hkey => ?_⟩
    · by_cases hlater : first.1 ∈ edges.map (·.1)
      · obtain ⟨edge, hedge, heq⟩ := List.mem_map.mp hlater
        have hsame := hagree first List.mem_cons_self edge (List.mem_cons_of_mem _ hedge) heq.symm
        have hfound := hnew edge hedge
        rw [heq, ← hsame] at hfound
        exact hfound
      · rw [hother first.1 hlater, hput, if_pos rfl]
    · rw [List.map_cons, List.mem_cons, not_or] at hkey
      rw [hother key hkey.2, hput, if_neg fun heq => hkey.1 heq.symm]

/-- When new edges are all there afterwards. -/
theorem edgeAt_putEdges_iff (hfree : ∀ edge ∈ edges, g.edgeAt edge.1 = none) :
    (∀ edge ∈ edges, (g.putEdges edges).edgeAt edge.1 = some (propsOf edge.2)) ↔
      (∀ edge ∈ edges, g.vertexAt edge.1.outboundId ≠ none ∧
        g.vertexAt edge.1.inboundId ≠ none) ∧
      ∀ edge ∈ edges, ∀ edge' ∈ edges, edge.1 = edge'.1 →
        (propsOf edge.2 : Props P X) = propsOf edge'.2 := by
  constructor
  · intro hall
    refine ⟨fun edge hedge => ?_, fun edge hedge edge' hedge' heq => ?_⟩
    · have hendpoints := endpoints_of_edgeAt (hall edge hedge ▸ Option.some_ne_none _)
      rwa [vertexAt_putEdges, vertexAt_putEdges] at hendpoints
    · have hprops := hall edge hedge
      rw [heq, hall edge' hedge', Option.some.injEq] at hprops
      exact hprops.symm
  · rintro ⟨hvertices, hagree⟩
    exact (edgeAt_putEdges hvertices hagree fun edge hedge => .inl (hfree edge hedge)).1

/-- A graph is what its vertices and its edges, put into the empty graph, give. -/
theorem putEdges_putVertices_empty (hvertices : (vertices.map (·.1)).Nodup)
    (hvertex : ∀ vertex ∈ vertices,
      g.vertexAt vertex.1 = some { t := vertex.2.1, props := propsOf vertex.2.2 })
    (hallVertices : ∀ id, g.vertexAt id ≠ none → id ∈ vertices.map (·.1))
    (hedges : (edges.map (·.1)).Nodup)
    (hedge : ∀ edge ∈ edges, g.edgeAt edge.1 = some (propsOf edge.2))
    (hallEdges : ∀ key, g.edgeAt key ≠ none → key ∈ edges.map (·.1)) :
    (((empty : Graph I T E P X).putVertices vertices).putEdges edges) = g := by
  obtain ⟨hnew, hother⟩ := vertexAt_putVertices hvertices fun vertex _ =>
    vertexAt_empty (T := T) (E := E) (P := P) (X := X) vertex.1
  have hsame (id : I) : ((empty : Graph I T E P X).putVertices vertices).vertexAt id =
      g.vertexAt id := by
    by_cases hid : id ∈ vertices.map (·.1)
    · obtain ⟨vertex, hmem, rfl⟩ := List.mem_map.mp hid
      rw [hnew vertex hmem, hvertex vertex hmem]
    · rw [hother id hid, vertexAt_empty]
      by_contra hne
      exact hid (hallVertices id fun hnone => hne hnone.symm)
  obtain ⟨hnew, hother⟩ := edgeAt_putEdges (g := (empty : Graph I T E P X).putVertices vertices)
    (fun edge hmem => by
      rw [hsame, hsame]
      exact endpoints_of_edgeAt (hedge edge hmem ▸ Option.some_ne_none _))
    (fun edge hmem edge' hmem' heq => by rw [List.inj_on_of_nodup_map hedges hmem hmem' heq])
    fun edge _ => .inl (by rw [edgeAt_putVertices, edgeAt_empty])
  refine ext_lookup (fun id => by rw [vertexAt_putEdges, hsame]) fun key => ?_
  by_cases hkey : key ∈ edges.map (·.1)
  · obtain ⟨edge, hmem, rfl⟩ := List.mem_map.mp hkey
    rw [hnew edge hmem, hedge edge hmem]
  · rw [hother key hkey, edgeAt_putVertices, edgeAt_empty]
    by_contra hne
    exact hkey (hallEdges key fun hnone => hne hnone.symm)

end Rebuilding
/-! ## Isomorphic graphs -/

section Isomorphism
variable [DecidableEq P] [DecidableEq I] [DecidableEq E]

/-- The second graph is the first one with its vertices renamed. -/
structure Iso (σ : Equiv.Perm I) (g g' : Graph I T E P X) : Prop where
  vertexAt : ∀ id, g'.vertexAt (σ id) = g.vertexAt id
  edgeAt : ∀ key, g'.edgeAt (key.map σ) = g.edgeAt key

theorem edgeKey_map_inj {σ : Equiv.Perm I} {k k' : EdgeKey I E} :
    k.map σ = k'.map σ ↔ k = k' := by
  cases k
  cases k'
  simp [EdgeKey.map]

variable {σ : Equiv.Perm I} {g g' : Graph I T E P X}

/-- A renaming of identifiers that a graph does not use. -/
theorem Iso.of_fresh (h : ∀ id, σ id ≠ id → g.vertexAt id = none) : Iso σ g g := by
  have hfix : ∀ id, g.vertexAt (σ id) = g.vertexAt id := by
    intro id
    by_cases hid : σ id = id
    · rw [hid]
    · rw [h id hid, h (σ id) fun hσ => hid (σ.injective hσ)]
  refine ⟨hfix, fun key => ?_⟩
  by_cases hkey : key.map σ = key
  · rw [hkey]
  · have hmoved : σ key.outboundId ≠ key.outboundId ∨ σ key.inboundId ≠ key.inboundId := by
      by_contra hfixed
      obtain ⟨hout, hin⟩ := not_or.mp hfixed
      refine hkey ?_
      simp only [EdgeKey.map, not_not.mp hout, not_not.mp hin]
    have hfree : g.vertexAt key.outboundId = none ∨ g.vertexAt key.inboundId = none :=
      hmoved.imp (h _) (h _)
    rw [edgeAt_eq_none hfree]
    refine edgeAt_eq_none ?_
    simpa only [EdgeKey.map, hfix] using hfree

theorem Iso.refl (g : Graph I T E P X) : Iso (Equiv.refl I) g g :=
  Iso.of_fresh fun _ h => absurd rfl h

theorem Iso.trans {τ : Equiv.Perm I} {g'' : Graph I T E P X} (h : Iso σ g g') (h' : Iso τ g' g'') :
    Iso (σ.trans τ) g g'' where
  vertexAt id := (h'.vertexAt (σ id)).trans (h.vertexAt id)
  edgeAt key := (h'.edgeAt (key.map σ)).trans (h.edgeAt key)

theorem Iso.createVertex (h : Iso σ g g') (id : I) (t : T) :
    Iso σ (g.createVertex id t) (g'.createVertex (σ id) t) where
  vertexAt i := by
    simp only [vertexAt_createVertex, h.vertexAt, σ.injective.eq_iff]
  edgeAt := h.edgeAt

theorem Iso.setVertexProperty (h : Iso σ g g') (id : I) (name : P) (value : X) :
    Iso σ (g.setVertexProperty id name value) (g'.setVertexProperty (σ id) name value) where
  vertexAt i := by
    simp only [vertexAt_setVertexProperty, h.vertexAt, σ.injective.eq_iff]
  edgeAt := h.edgeAt

theorem Iso.createEdge (h : Iso σ g g') (key : EdgeKey I E) :
    Iso σ (g.createEdge key) (g'.createEdge (key.map σ)) where
  vertexAt i := by
    simp only [vertexAt_createEdge, h.vertexAt]
  edgeAt k := by
    simp only [edgeAt_createEdge, h.edgeAt, edgeKey_map_inj]
    simp only [EdgeKey.map, h.vertexAt]

theorem Iso.setEdgeProperty (h : Iso σ g g') (key : EdgeKey I E) (name : P) (value : X) :
    Iso σ (g.setEdgeProperty key name value) (g'.setEdgeProperty (key.map σ) name value) where
  vertexAt := h.vertexAt
  edgeAt k := by
    simp only [edgeAt_setEdgeProperty, h.edgeAt, edgeKey_map_inj]

theorem Iso.setVertexProperties (h : Iso σ g g') (id : I) (values : List (P × X)) :
    Iso σ (g.setVertexProperties id values) (g'.setVertexProperties (σ id) values) := by
  unfold Graph.setVertexProperties
  induction values generalizing g g' with
  | nil => exact h
  | cons value values ih => exact ih (h.setVertexProperty id value.1 value.2)

theorem Iso.setEdgeProperties (h : Iso σ g g') (key : EdgeKey I E) (values : List (P × X)) :
    Iso σ (g.setEdgeProperties key values) (g'.setEdgeProperties (key.map σ) values) := by
  unfold Graph.setEdgeProperties
  induction values generalizing g g' with
  | nil => exact h
  | cons value values ih => exact ih (h.setEdgeProperty key value.1 value.2)

theorem Iso.putVertex (h : Iso σ g g') (id : I) (t : T) (values : List (P × X)) :
    Iso σ (g.putVertex id t values) (g'.putVertex (σ id) t values) :=
  (h.createVertex id t).setVertexProperties id values

theorem Iso.putEdge (h : Iso σ g g') (key : EdgeKey I E) (values : List (P × X)) :
    Iso σ (g.putEdge key values) (g'.putEdge (key.map σ) values) :=
  (h.createEdge key).setEdgeProperties key values

/-- Setting a property to the value it has. -/
theorem setVertexProperty_self {id : I} {name : P} {value : X}
    (h : (g.vertexAt id).bind (·.props name) = some value) :
    g.setVertexProperty id name value = g := by
  refine ext_lookup (fun i => ?_) fun key => rfl
  rw [vertexAt_setVertexProperty]
  split
  · rename_i hi
    subst hi
    cases hvertex : g.vertexAt id with
    | none => rfl
    | some vertex =>
      rw [hvertex] at h
      rw [Option.map_some, ← h, Option.bind_some, Function.update_eq_self]
  · rfl

theorem setVertexProperties_eq_self {id : I} {vertex : Vertex T P X} {values : List (P × X)}
    (hnames : (values.map (·.1)).Nodup) (hid : g.vertexAt id = some vertex) :
    g.setVertexProperties id values = g ↔ ∀ value ∈ values, vertex.props value.1 = some value.2 := by
  rw [← Props.setAll_eq_self hnames]
  constructor
  · intro h
    have hvertex := vertexAt_setVertexProperties g id id values
    rw [h, if_pos rfl, hid, Option.map_some, Option.some.injEq] at hvertex
    exact (congrArg Vertex.props hvertex).symm
  · intro h
    refine ext_lookup (fun i => ?_) fun key => edgeAt_setVertexProperties g id values key
    rw [vertexAt_setVertexProperties]
    split
    · rename_i hi
      rw [← hi, hid, Option.map_some, h]
    · rfl

/-- A graph where one vertex got another value for a property is no renaming of the graph it was:
there is one more vertex that looks like the changed one. -/
theorem not_iso_setVertexProperty [Finite I] {id : I} {vertex : Vertex T P X} {name : P} {value : X}
    (hid : g.vertexAt id = some vertex) (hvalue : vertex.props name ≠ some value) :
    ¬ Iso σ (g.setVertexProperty id name value) g := by
  intro hiso
  have hafter := vertexAt_setVertexProperty g id id name value
  rw [if_pos rfl, hid, Option.map_some] at hafter
  generalize hchanged : ({ vertex with props := Function.update vertex.props name (some value) } :
    Vertex T P X) = changed at hafter
  have hne : changed ≠ vertex := by
    intro heq
    rw [← hchanged] at heq
    have hprops := congrArg (fun v => v.props name) heq
    simp only [Function.update_self] at hprops
    exact hvalue hprops.symm
  let before : Set I := { i | g.vertexAt i = some changed }
  let after : Set I := { i | (g.setVertexProperty id name value).vertexAt i = some changed }
  have himage : σ '' after = before := by
    ext i
    constructor
    · rintro ⟨j, hj, rfl⟩
      exact (hiso.vertexAt j).trans hj
    · intro hi
      refine ⟨σ.symm i, ?_, σ.apply_symm_apply i⟩
      show (g.setVertexProperty id name value).vertexAt (σ.symm i) = some changed
      rw [← hiso.vertexAt, σ.apply_symm_apply]
      exact hi
  have hsubset : before ⊂ after := by
    refine ⟨fun i hi => ?_, fun hall => ?_⟩
    · show (g.setVertexProperty id name value).vertexAt i = some changed
      have hi : g.vertexAt i = some changed := hi
      have hother : id ≠ i := by
        intro heq
        rw [← heq, hid, Option.some.injEq] at hi
        exact hne hi.symm
      rw [vertexAt_setVertexProperty, if_neg hother, hi]
    · have hbefore : g.vertexAt id = some changed := hall hafter
      rw [hid, Option.some.injEq] at hbefore
      exact hne hbefore.symm
  have hless := Set.ncard_lt_ncard hsubset after.toFinite
  rw [← himage, Set.ncard_image_of_injective _ σ.injective] at hless
  exact lt_irrefl _ hless

end Isomorphism
end Graph
end PropertyGraph
