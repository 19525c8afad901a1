import CommonDataLayer.SchemaRegistry.UploadProtocol
import CommonDataLayer.SchemaRegistry.VersionHistory

/-! # Concurrent uploads of versions

Requests for new versions of one schema, whose handlers make their datastore calls in any order
among each other. A handler reads the versions of the schema, and later sets the version of the edge
to its own definition; no lock is held in between.

* `Holds`: what a handler knows of the database in a phase of `uploadProtocol`, whatever the other
  handlers do (`Holds.mono`).
* `Steady`: what stays true as long as every handler that sets its version is `UpToDate`.
* `consistent_iff`: the history of the schema stays consistent exactly as long as they all are.
-/
namespace CommonDataLayer.SchemaRegistry
open Interaction PropertyGraph Std TransitionSystem
set_option autoImplicit false

/-! ## The system -/

/-- A request that is being handled. -/
structure Upload where
  program : Task (Except Status Response)
  /-- How many versions had been accepted when it read the versions of the schema. -/
  readAt : Option ℕ

structure Uploads where
  world : World
  uploads : List Upload
  /-- The versions that were set on edges, with their definitions. -/
  accepted : List (Version × Uuid)

inductive UploadLabel where
  | arrive (id version definition : String)
  | call (i : ℕ)

/-- The version that a call sets, with the vertex of its definition. -/
def Call.sets (crates : Crates) : Call → Option (Version × Uuid)
  | .setEdgeProperties key .version value =>
    (crates.versionOfValue value).map fun version => (version, key.inboundId)
  | _ => none

/-- The call reads the versions of the schema. -/
def Call.readsVersions (schemaId : Uuid) : Call → Bool
  | .getEdgeProperties id .schemaDefinition .version => id = schemaId
  | _ => false

/-- The first time that a handler reads the versions of the schema. -/
def readAfter (schemaId : Uuid) (accepted : List (Version × Uuid)) (q : Call) (readAt : Option ℕ) :
    Option ℕ :=
  if q.readsVersions schemaId then readAt.or (some accepted.length) else readAt

/-- A new request, or the next call of a handler. -/
def Uploads.step (crates : Crates) (broker : Broker) (schemaId : Uuid) (s : Uploads) :
    UploadLabel → Option Uploads
  | .arrive id version definition =>
    if (crates.parseUuid id).toOption = some schemaId then
      some { s with uploads := s.uploads ++
        [⟨(SchemaRegistryImpl.addSchemaVersion crates id version definition).run, none⟩] }
    else none
  | .call i => match s.uploads[i]? with
    | some ⟨.call q next, readAt⟩ =>
      some { world := (answer broker q s.world).2
             uploads := s.uploads.set i
               ⟨next (answer broker q s.world).1, readAfter schemaId s.accepted q readAt⟩
             accepted := s.accepted ++ (q.sets crates).toList }
    | _ => none

abbrev UploadStep (crates : Crates) (broker : Broker) (schemaId : Uuid) (s : Uploads)
    (l : UploadLabel) (s' : Uploads) : Prop := s.step crates broker schemaId l = some s'

/-- The versions attached to the schema are distinct, and they were accepted in increasing order. -/
structure Consistent (crates : Crates) (broker : Broker) (schemaId : Uuid) (s : Uploads) : Prop where
  attached : ∃ found, (run broker (getSchemaVersions crates schemaId) s.world).1 = .ok found ∧
    (∀ x, x ∈ found ↔ x ∈ s.accepted) ∧ found.Pairwise fun a b => compare a.1 b.1 ≠ .eq
  increasing : s.accepted.Pairwise fun a b => compare a.1 b.1 = .lt

/-- A handler that sets its version has a greater one than all that were accepted since it read. -/
def UpToDate (crates : Crates) (s : Uploads) : UploadLabel → Prop
  | .arrive _ _ _ => True
  | .call i => ∀ (q : Call) (next : Answer q → Task (Except Status Response)) (n : ℕ),
    s.uploads[i]? = some ⟨.call q next, some n⟩ →
    ∀ a ∈ q.sets crates, ∀ x ∈ s.accepted.drop n, compare x.1 a.1 = .lt

/-! ## What the handlers know of the database -/

section Invariant
variable {crates : Crates} {broker : Broker} {schemaId : Uuid} {version : Version} {g g' : Graph}
  {accepted accepted' : List (Version × Uuid)} {readAt : Option ℕ} {phase : UploadPhase} {d : Uuid}
  {own : Option Uuid}

/-- The definition is stored, and its version comes after all that were accepted at the time of the
read. -/
structure Drafted (crates : Crates) (schemaId : Uuid) (version : Version) (g : Graph)
    (accepted : List (Version × Uuid)) (readAt : Option ℕ) (d : Uuid) : Prop where
  schema : g.vertexAt schemaId ≠ none
  unversioned : versionValue g schemaId d = none
  parsed : ∃ text, crates.parseVersion text = .ok version
  greatest : ∃ n, readAt = some n ∧ n ≤ accepted.length ∧
    ∀ x ∈ accepted.take n, compare x.1 version = .lt

def Holds (crates : Crates) (schemaId : Uuid) (version : Version) (g : Graph)
    (accepted : List (Version × Uuid)) (readAt : Option ℕ) : UploadPhase → Prop
  | .started => readAt = none
  | .found => readAt = none ∧ g.vertexAt schemaId ≠ none
  | .read properties => g.vertexAt schemaId ≠ none ∧ ∃ n, readAt = some n ∧ n ≤ accepted.length ∧
    ∀ found, versionsOf crates schemaId properties = .ok found → ∀ x ∈ accepted.take n, x ∈ found
  | .stored d => Drafted crates schemaId version g accepted readAt d
  | .linked d => Drafted crates schemaId version g accepted readAt d ∧
    g.edgeAt (schemaDefinitionKey schemaId d) ≠ none
  | .finished => True

/-- Nothing is taken away, and the versions stay as they are, but for the one of `own`. -/
structure Extends (schemaId : Uuid) (own : Option Uuid) (g g' : Graph) : Prop where
  vertex (id : Uuid) : g.vertexAt id ≠ none → g'.vertexAt id ≠ none
  edge (key : EdgeKey) : g.edgeAt key ≠ none → g'.edgeAt key ≠ none
  version (d : Uuid) : d ∉ own → versionValue g' schemaId d = versionValue g schemaId d

theorem Extends.refl (g : Graph) : Extends schemaId own g g := ⟨fun _ h => h, fun _ h => h, fun _ _ => rfl⟩

theorem extends_createVertex (id : Uuid) (t : VertexType) :
    Extends schemaId own g (g.createVertex id t) where
  vertex _ h := (Graph.grows_createVertex id t).vertexAt h
  edge _ h := h
  version _ _ := rfl

theorem extends_setVertexProperty (id : Uuid) (name : PropName) (value : Value) :
    Extends schemaId own g (g.setVertexProperty id name value) where
  vertex _ h := (Graph.grows_setVertexProperty id name value).vertexAt h
  edge _ h := h
  version _ _ := rfl

/-- A new edge has no version. -/
theorem extends_createEdge (key : EdgeKey) : Extends schemaId own g (g.createEdge key) where
  vertex _ h := (Graph.grows_createEdge key).vertexAt h
  edge _ h := (Graph.grows_createEdge key).edgeAt h
  version d _ := by
    rw [versionValue, versionValue, Graph.edgeAt_createEdge]
    split
    · rename_i h
      rw [h.2.2.2]
      rfl
    · rfl

theorem extends_setEdgeProperty (d : Uuid) (value : Value) : Extends schemaId (some d) g
    (g.setEdgeProperty (schemaDefinitionKey schemaId d) .version value) where
  vertex _ h := h
  edge _ h := (Graph.grows_setEdgeProperty _ _ _).edgeAt h
  version other hother := by
    have hkey : schemaDefinitionKey schemaId d ≠ schemaDefinitionKey schemaId other := fun heq =>
      hother (congrArg some (congrArg PropertyGraph.EdgeKey.inboundId heq))
    rw [versionValue, Graph.edgeAt_setEdgeProperty, if_neg hkey]
    rfl

/-- All calls but one leave the versions as they are. -/
theorem extends_answer (w : World) {q : Call}
    (hq : ∀ key name value, q ≠ .setEdgeProperties key name value) :
    Extends schemaId own w.graph (answer broker q w).2.graph := by
  cases q with
  | createVertex id t => exact extends_createVertex id t
  | createVertexFromType t =>
    rw [answer]
    split
    · exact extends_createVertex _ t
    · exact .refl _
  | setVertexProperties id name value => exact extends_setVertexProperty id name value
  | createEdge key => exact extends_createEdge key
  | setEdgeProperties key name value => exact absurd rfl (hq key name value)
  | replicateMessage event =>
    rw [answer]
    split <;> exact .refl _
  | _ => exact .refl _

theorem Drafted.mono (h : Drafted crates schemaId version g accepted readAt d)
    (hextends : Extends schemaId own g g') (hd : d ∉ own) (haccepted : accepted <+: accepted') :
    Drafted crates schemaId version g' accepted' readAt d where
  schema := hextends.vertex _ h.schema
  unversioned := (hextends.version d hd).trans h.unversioned
  parsed := h.parsed
  greatest := by
    obtain ⟨n, hn, hle, hgreatest⟩ := h.greatest
    obtain ⟨later, rfl⟩ := haccepted
    refine ⟨n, hn, by rw [List.length_append]; omega, ?_⟩
    rwa [List.take_append_of_le_length hle]

theorem Holds.mono (h : Holds crates schemaId version g accepted readAt phase)
    (hextends : Extends schemaId own g g') (hown : ∀ d ∈ phase.definition, d ∉ own)
    (haccepted : accepted <+: accepted') :
    Holds crates schemaId version g' accepted' readAt phase := by
  cases phase with
  | started => exact h
  | found => exact ⟨h.1, hextends.vertex _ h.2⟩
  | read properties =>
    obtain ⟨hschema, n, hn, hle, hread⟩ := h
    obtain ⟨later, rfl⟩ := haccepted
    refine ⟨hextends.vertex _ hschema, n, hn, by rw [List.length_append]; omega, ?_⟩
    rwa [List.take_append_of_le_length hle]
  | stored d => exact Drafted.mono h hextends (hown d rfl) haccepted
  | linked d => exact ⟨h.1.mono hextends (hown d rfl) haccepted, hextends.edge _ h.2⟩
  | finished => trivial

theorem readAfter_some {q : Call} {n : ℕ} : readAfter schemaId accepted q (some n) = some n := by
  rw [readAfter]
  split <;> rfl

/-- What a handler knows after a call, but for the last one. -/
theorem Holds.next (broker : Broker) {w : World} {q : Call}
    (h : Holds crates schemaId version w.graph accepted readAt phase)
    (hallows : (uploadProtocol crates schemaId version).Allows phase q)
    (hlinked : ∀ d, phase ≠ .linked d) (hhistory : History crates w.graph schemaId accepted)
    (hdefinition : ∀ d ∈ phase.definition, w.graph.vertexAt d ≠ none) :
    Holds crates schemaId version (answer broker q w).2.graph accepted
        (readAfter schemaId accepted q readAt)
        ((uploadProtocol crates schemaId version).after phase q (answer broker q w).1) ∧
      ∀ d ∈ ((uploadProtocol crates schemaId version).after phase q (answer broker q w).1).definition,
        (answer broker q w).2.graph.vertexAt d ≠ none ∧
          (d ∈ phase.definition ∨ w.graph.vertexAt d = none) := by
  cases phase with
  | started =>
    rcases hallows with rfl | rfl
    · exact ⟨h, forall_mem_none⟩
    · dsimp only [answer]
      cases hschema : w.graph.vertexAt schemaId with
      | none => exact ⟨h, forall_mem_none⟩
      | some vertex => exact ⟨⟨h, hschema ▸ Option.some_ne_none _⟩, forall_mem_none⟩
  | found =>
    obtain ⟨rfl, hschema⟩ := h
    rcases hallows with rfl | rfl
    · exact ⟨⟨rfl, hschema⟩, forall_mem_none⟩
    · refine ⟨⟨hschema, accepted.length, ?_, le_rfl, fun found hfound x hx => ?_⟩, forall_mem_none⟩
      · rw [readAfter, Call.readsVersions, decide_eq_true rfl]
        rfl
      · exact (hhistory.mem_versions hfound x).mpr (List.mem_of_mem_take hx)
  | read properties =>
    obtain ⟨hschema, n, rfl, hle, hread⟩ := h
    rcases hallows with rfl | ⟨id, t, name, rfl⟩ | ⟨id, name, rfl⟩ | ⟨rfl, hchecked⟩
    · exact ⟨⟨hschema, n, rfl, hle, hread⟩, forall_mem_none⟩
    · exact ⟨⟨hschema, n, readAfter_some, hle, hread⟩, forall_mem_none⟩
    · exact ⟨⟨hschema, n, rfl, hle, hread⟩, forall_mem_none⟩
    · rw [answer]
      dsimp only
      split
      · rename_i hfree
        have hfree : w.graph.vertexAt (w.supply 0) = none := Option.isNone_iff_eq_none.mp hfree
        have hextends : Extends schemaId none w.graph (w.graph.createVertex (w.supply 0) .definition) :=
          extends_createVertex _ _
        obtain ⟨found, hfound, hgreatest⟩ := hchecked.greatest
        refine ⟨⟨hextends.vertex _ hschema, ?_, hchecked.parsed, n, rfl, hle, fun x hx =>
          hgreatest x (hread found hfound x hx)⟩, fun d hd => ?_⟩
        · exact (hextends.version _ (Option.not_mem_none _)).trans (versionValue_of_free (Or.inr hfree))
        · cases hd
          refine ⟨?_, Or.inr hfree⟩
          rw [Graph.vertexAt_createVertex, if_pos ⟨rfl, hfree⟩]
          exact Option.some_ne_none _
      · exact ⟨⟨hschema, n, rfl, hle, hread⟩, forall_mem_none⟩
  | stored d =>
    have hd := hdefinition d rfl
    rcases hallows with rfl | ⟨name, value, rfl⟩ | rfl
    · exact ⟨h, fun other hother => ⟨hdefinition other hother, Or.inl hother⟩⟩
    · have hextends : Extends schemaId none w.graph (w.graph.setVertexProperty d name value) :=
        extends_setVertexProperty _ _ _
      exact ⟨Drafted.mono h hextends (Option.not_mem_none d) List.prefix_rfl, fun other hother =>
        ⟨hextends.vertex other (hdefinition other hother), Or.inl hother⟩⟩
    · have hextends : Extends schemaId none w.graph
          (w.graph.createEdge (schemaDefinitionKey schemaId d)) := extends_createEdge _
      refine ⟨⟨Drafted.mono h hextends (Option.not_mem_none d) List.prefix_rfl, ?_⟩, fun other hother =>
        ⟨hextends.vertex other (hdefinition other hother), Or.inl hother⟩⟩
      show (w.graph.createEdge _).edgeAt _ ≠ none
      by_cases hedge : w.graph.edgeAt (schemaDefinitionKey schemaId d) = none
      · rw [Graph.edgeAt_createEdge, if_pos ⟨rfl, h.schema, hd, hedge⟩]
        exact Option.some_ne_none _
      · exact hextends.edge _ hedge
  | linked d => exact absurd rfl (hlinked d)
  | finished =>
    obtain ⟨event, rfl⟩ := hallows
    exact ⟨trivial, forall_mem_none⟩

/-! ## Steps -/

structure UploadRole where
  version : Version
  phase : UploadPhase

/-- Every handler plays its role, and no two of them have the same definition vertex. -/
structure Cast (crates : Crates) (schemaId : Uuid) (s : Uploads) (role : ℕ → UploadRole) : Prop where
  follows (i : ℕ) (upload : Upload) : s.uploads[i]? = some upload →
    upload.program.Follows (uploadProtocol crates schemaId (role i).version) (fun _ _ => True)
      (role i).phase
  holds (i : ℕ) (upload : Upload) : s.uploads[i]? = some upload →
    Holds crates schemaId (role i).version s.world.graph s.accepted upload.readAt (role i).phase
  definition (i : ℕ) (d : Uuid) : d ∈ (role i).phase.definition → s.world.graph.vertexAt d ≠ none
  distinct (i j : ℕ) (d : Uuid) :
    d ∈ (role i).phase.definition → d ∈ (role j).phase.definition → i = j

structure Steady (crates : Crates) (schemaId : Uuid) (s : Uploads) : Prop where
  history : History crates s.world.graph schemaId s.accepted
  cast : ∃ role, Cast crates schemaId s role

variable {s s' : Uploads} {role : ℕ → UploadRole} {i : ℕ}

theorem uploadStep_arrive {id text definition : String}
    (h : UploadStep crates broker schemaId s (.arrive id text definition) s') :
    crates.parseUuid id = .ok schemaId ∧ s' = { s with uploads := s.uploads ++
      [⟨(SchemaRegistryImpl.addSchemaVersion crates id text definition).run, none⟩] } := by
  rw [UploadStep, Uploads.step] at h
  split at h
  · rename_i hid
    refine ⟨?_, (Option.some.inj h).symm⟩
    cases hparse : crates.parseUuid id with
    | error e =>
      rw [hparse] at hid
      cases hid
    | ok id =>
      rw [hparse] at hid
      exact congrArg Except.ok (Option.some.inj hid)
  · cases h

theorem uploadStep_call (h : UploadStep crates broker schemaId s (.call i) s') :
    ∃ q next readAt, s.uploads[i]? = some ⟨.call q next, readAt⟩ ∧
      s' = { world := (answer broker q s.world).2
             uploads := s.uploads.set i
               ⟨next (answer broker q s.world).1, readAfter schemaId s.accepted q readAt⟩
             accepted := s.accepted ++ (q.sets crates).toList } := by
  rw [UploadStep, Uploads.step] at h
  split at h
  · exact ⟨_, _, _, ‹_›, (Option.some.inj h).symm⟩
  · cases h

theorem Cast.arrive (hcast : Cast crates schemaId s role) {upload : Upload} (role' : UploadRole)
    (hfollows : upload.program.Follows (uploadProtocol crates schemaId role'.version)
      (fun _ _ => True) role'.phase)
    (hholds : Holds crates schemaId role'.version s.world.graph s.accepted upload.readAt role'.phase)
    (hnone : role'.phase.definition = none) :
    Cast crates schemaId { s with uploads := s.uploads ++ [upload] }
      (Function.update role s.uploads.length role') := by
  have hold (j : ℕ) (d : Uuid)
      (hd : d ∈ (Function.update role s.uploads.length role' j).phase.definition) :
      d ∈ (role j).phase.definition := by
    by_cases hj : j = s.uploads.length
    · rw [hj, Function.update_self, hnone] at hd
      cases hd
    · rwa [Function.update_of_ne hj] at hd
  have hrole (j : ℕ) (other : Upload) (hother : (s.uploads ++ [upload])[j]? = some other) :
      (Function.update role s.uploads.length role' j = role j ∧ s.uploads[j]? = some other) ∨
        (Function.update role s.uploads.length role' j = role' ∧ other = upload) := by
    rcases Nat.lt_trichotomy j s.uploads.length with hj | rfl | hj
    · rw [List.getElem?_append_left hj] at hother
      exact Or.inl ⟨Function.update_of_ne (by omega) _ _, hother⟩
    · rw [List.getElem?_concat_length, Option.some.injEq] at hother
      exact Or.inr ⟨Function.update_self .., hother.symm⟩
    · rw [List.getElem?_eq_none (by rw [List.length_append, List.length_singleton]; omega)] at hother
      cases hother
  constructor
  · intro j other hother
    rcases hrole j other hother with ⟨heq, hother⟩ | ⟨heq, rfl⟩
    · rw [heq]
      exact hcast.follows j other hother
    · rw [heq]
      exact hfollows
  · intro j other hother
    rcases hrole j other hother with ⟨heq, hother⟩ | ⟨heq, rfl⟩
    · rw [heq]
      exact hcast.holds j other hother
    · rw [heq]
      exact hholds
  · exact fun j d hd => hcast.definition j d (hold j d hd)
  · exact fun j k d hj hk => hcast.distinct j k d (hold j d hj) (hold k d hk)

theorem Cast.call (hcast : Cast crates schemaId s role) {w : World} {upload upload' : Upload}
    {phase : UploadPhase} (hpending : s.uploads[i]? = some upload)
    (hextends : Extends schemaId own s.world.graph w.graph)
    (hown : ∀ d ∈ own, d ∈ (role i).phase.definition) (haccepted : s.accepted <+: accepted)
    (hfollows : upload'.program.Follows (uploadProtocol crates schemaId (role i).version)
      (fun _ _ => True) phase)
    (hholds : Holds crates schemaId (role i).version w.graph accepted upload'.readAt phase)
    (hdefinition : ∀ d ∈ phase.definition, w.graph.vertexAt d ≠ none ∧
      (d ∈ (role i).phase.definition ∨ s.world.graph.vertexAt d = none)) :
    Cast crates schemaId ⟨w, s.uploads.set i upload', accepted⟩
      (Function.update role i ⟨(role i).version, phase⟩) := by
  -- A handler that has the vertex `d` after the call had it before, or `d` was free.
  have hbefore (j : ℕ) (d : Uuid)
      (hd : d ∈ (Function.update role i ⟨(role i).version, phase⟩ j).phase.definition) :
      w.graph.vertexAt d ≠ none ∧ (d ∈ (role j).phase.definition ∨
        (j = i ∧ s.world.graph.vertexAt d = none)) := by
    by_cases hj : j = i
    · subst hj
      rw [Function.update_self] at hd
      exact ⟨(hdefinition d hd).1, (hdefinition d hd).2.imp_right fun h => ⟨rfl, h⟩⟩
    · rw [Function.update_of_ne hj] at hd
      exact ⟨hextends.vertex d (hcast.definition j d hd), Or.inl hd⟩
  have hrole (j : ℕ) (other : Upload) (hother : (s.uploads.set i upload')[j]? = some other) :
      (j ≠ i ∧ s.uploads[j]? = some other) ∨ (j = i ∧ other = upload') := by
    rw [List.getElem?_set] at hother
    split at hother
    · rename_i hj
      split at hother
      · exact Or.inr ⟨hj.symm, (Option.some.inj hother).symm⟩
      · cases hother
    · rename_i hj
      exact Or.inl ⟨fun h => hj h.symm, hother⟩
  constructor
  · intro j other hother
    rcases hrole j other hother with ⟨hj, hother⟩ | ⟨rfl, rfl⟩
    · rw [Function.update_of_ne hj]
      exact hcast.follows j other hother
    · rw [Function.update_self]
      exact hfollows
  · intro j other hother
    rcases hrole j other hother with ⟨hj, hother⟩ | ⟨rfl, rfl⟩
    · rw [Function.update_of_ne hj]
      refine (hcast.holds j other hother).mono hextends (fun d hd hd' => ?_) haccepted
      exact hj (hcast.distinct j i d hd (hown d hd'))
    · rw [Function.update_self]
      exact hholds
  · exact fun j d hd => (hbefore j d hd).1
  · intro j k d hj hk
    rcases (hbefore j d hj).2 with hj' | ⟨hj', hfree⟩
    · rcases (hbefore k d hk).2 with hk' | ⟨-, hfree⟩
      · exact hcast.distinct j k d hj' hk'
      · exact absurd hfree (hcast.definition j d hj')
    · rcases (hbefore k d hk).2 with hk' | ⟨hk', -⟩
      · exact absurd hfree (hcast.definition k d hk')
      · exact hj'.trans hk'.symm

theorem sets_eq_none {q : Call} (hq : ∀ key name value, q ≠ .setEdgeProperties key name value) :
    q.sets crates = none := by
  cases q with
  | setEdgeProperties key name value => exact absurd rfl (hq key name value)
  | _ => rfl

/-- Only a handler whose edge is there sets a property of an edge. -/
theorem linked_of_allows {key : EdgeKey} {name : PropName} {value : Value}
    (h : (uploadProtocol crates schemaId version).Allows phase (.setEdgeProperties key name value)) :
    ∃ d, phase = .linked d := by
  cases phase with
  | linked d => exact ⟨d, rfl⟩
  | started => rcases h with h | h <;> cases h
  | found => rcases h with h | h <;> cases h
  | read properties => rcases h with h | ⟨_, _, _, h⟩ | ⟨_, _, h⟩ | ⟨h, -⟩ <;> cases h
  | stored d => rcases h with h | ⟨_, _, h⟩ | h <;> cases h
  | finished =>
    obtain ⟨event, h⟩ := h
    cases h

/-- The version on the edge after it was set. -/
theorem versionValue_setEdgeProperty (hedge : g.edgeAt (schemaDefinitionKey schemaId d) ≠ none)
    (value : Value) (other : Uuid) :
    versionValue (g.setEdgeProperty (schemaDefinitionKey schemaId d) .version value) schemaId other =
      if other = d then some value else versionValue g schemaId other := by
  by_cases h : other = d
  · subst h
    obtain ⟨props, hprops⟩ := Option.ne_none_iff_exists'.mp hedge
    rw [versionValue, Graph.edgeAt_setEdgeProperty, if_pos rfl, if_pos rfl, hprops, Option.map_some,
      Option.bind_some, Function.update_self]
  · rw [if_neg h]
    exact (extends_setEdgeProperty d value).version other fun heq => h (Option.some.inj heq).symm

theorem Steady.step {l : UploadLabel} (hsteady : Steady crates schemaId s)
    (hstep : UploadStep crates broker schemaId s l s') (hl : UpToDate crates s l)
    (hshow : ∀ text version, crates.parseVersion text = .ok version →
      crates.parseVersion (crates.showVersion version) = .ok version) :
    Steady crates schemaId s' := by
  obtain ⟨hhistory, role, hcast⟩ := hsteady
  cases l with
  | arrive id text definition =>
    obtain ⟨same, rfl⟩ := uploadStep_arrive hstep
    refine ⟨hhistory, _, hcast.arrive ⟨uploadedVersion crates text, .started⟩ ?_ rfl rfl⟩
    exact (followsOk_addSchemaVersion same).imp fun _ _ _ => trivial
  | call i =>
    obtain ⟨q, next, readAt, pending, rfl⟩ := uploadStep_call hstep
    obtain ⟨hallows, hfollows⟩ := hcast.follows i _ pending
    have hholds := hcast.holds i _ pending
    by_cases hlinked : ∃ d, (role i).phase = .linked d
    · obtain ⟨d, hd⟩ := hlinked
      rw [hd] at hallows hfollows hholds
      obtain ⟨hdrafted, hedge⟩ := hholds
      obtain ⟨n, rfl, -, hread⟩ := hdrafted.greatest
      obtain ⟨text, hparsed⟩ := hdrafted.parsed
      have hparse := hshow text _ hparsed
      subst hallows
      have hsets : Call.sets crates (.setEdgeProperties (schemaDefinitionKey schemaId d) .version
          (.string (crates.showVersion (role i).version))) = some ((role i).version, d) := by
        rw [Call.sets, versionOfValue_show hparse]
        rfl
      have hless : ∀ x ∈ s.accepted, compare x.1 (role i).version = .lt := by
        intro x hx
        rw [← List.take_append_drop n s.accepted, List.mem_append] at hx
        rcases hx with hx | hx
        · exact hread x hx
        · exact hl _ next n pending _ hsets x hx
      have hown : ∀ other ∈ some d, other ∈ (role i).phase.definition := by
        rw [hd]
        exact fun other hother => hother
      have hfinished (a) : (next a).Follows (uploadProtocol crates schemaId (role i).version)
        (fun _ _ => True) .finished := hfollows a
      rw [hsets]
      exact ⟨hhistory.append (versionValue_setEdgeProperty hedge _) hdrafted.unversioned hless hparse,
        _, hcast.call pending (extends_setEdgeProperty d _) hown (List.prefix_append _ _) (hfinished _)
          trivial nofun⟩
    · have hq (key : EdgeKey) (name : PropName) (value : Value) :
          q ≠ .setEdgeProperties key name value := by
        rintro rfl
        exact hlinked (linked_of_allows hallows)
      have hextends : Extends schemaId none s.world.graph (answer broker q s.world).2.graph :=
        extends_answer s.world hq
      have hnext := hholds.next broker hallows (fun d hd => hlinked ⟨d, hd⟩) hhistory (hcast.definition i)
      rw [sets_eq_none hq, Option.toList_none, List.append_nil]
      exact ⟨hhistory.congr fun d => hextends.version d nofun, _,
        hcast.call pending hextends nofun List.prefix_rfl (hfollows _) hnext.1 hnext.2⟩

/-! ## Runs -/

theorem inboundIds_versionsOf {l : List (EdgeKey × Value)} {found : List (Version × Uuid)}
    (h : versionsOf crates schemaId l = .ok found) :
    found.map (·.2) = l.map (·.1.inboundId) := by
  induction l generalizing found with
  | nil =>
    cases h
    rfl
  | cons entry l ih =>
    obtain ⟨key, value⟩ := entry
    rw [versionsOf] at h
    cases hversion : crates.versionOfValue value with
    | none =>
      rw [hversion] at h
      cases h
    | some version =>
      rw [hversion] at h
      obtain ⟨later, hlater, heq⟩ := bind_eq_ok.mp h
      cases heq
      rw [List.map_cons, List.map_cons, ih hlater]

/-- The vertices of the versions that a schema has are distinct. -/
theorem versions_distinct {found : List (Version × Uuid)}
    (hfound : versions crates g schemaId = .ok found) : found.Pairwise fun a b => a.2 ≠ b.2 := by
  refine List.pairwise_map.mp ?_
  rw [inboundIds_versionsOf hfound, List.pairwise_map, List.pairwise_filterMap]
  refine (List.pairwise_map.mp (g.nodup_outbound schemaId _)).imp fun {a b} hne x hx y hy heq => hne ?_
  obtain ⟨_, -, rfl⟩ := Option.map_eq_some_iff.mp hx
  obtain ⟨_, -, rfl⟩ := Option.map_eq_some_iff.mp hy
  exact heq

theorem Steady.consistent (broker : Broker) (h : Steady crates schemaId s) :
    Consistent crates broker schemaId s where
  attached := by
    obtain ⟨found, hfound, hmem⟩ := h.history.versions
    refine ⟨found, by rw [run_getSchemaVersions, hfound], hmem, ?_⟩
    have hne : s.accepted.Pairwise fun a b => compare a.1 b.1 ≠ .eq :=
      h.history.increasing.imp fun hlt => hlt ▸ nofun
    refine (versions_distinct hfound).imp_of_mem fun {a b} ha hb hab => ?_
    have : Std.Symm fun a b : Version × Uuid => compare a.1 b.1 ≠ .eq :=
      ⟨fun x y hxy hyx => hxy (by rw [OrientedOrd.eq_swap, hyx]; rfl)⟩
    exact hne.forall ((hmem a).mp ha) ((hmem b).mp hb) fun heq => hab (congrArg Prod.snd heq)
  increasing := h.history.increasing

theorem not_consistent {l : UploadLabel} (hstep : UploadStep crates broker schemaId s l s')
    (hl : ¬ UpToDate crates s l) : ¬ Consistent crates broker schemaId s' := by
  intro hconsistent
  refine hl ?_
  cases l with
  | arrive id text definition => trivial
  | call i =>
    obtain ⟨q, next, readAt, pending, rfl⟩ := uploadStep_call hstep
    intro q' next' n hpending a ha x hx
    rw [pending, Option.some.injEq, Upload.mk.injEq] at hpending
    obtain ⟨hprogram, -⟩ := hpending
    cases hprogram
    have hincreasing := hconsistent.increasing
    rw [ha, Option.toList_some] at hincreasing
    exact (List.pairwise_append.mp hincreasing).2.2 x (List.mem_of_mem_drop hx) a
      (List.mem_singleton_self a)

theorem consistent_iff {w : World} {accepted : List (Version × Uuid)}
    {ts : List (Transition Uploads UploadLabel)}
    (hhistory : History crates w.graph schemaId accepted)
    (hshow : ∀ text version, crates.parseVersion text = .ok version →
      crates.parseVersion (crates.showVersion version) = .ok version)
    (hrun : Run (UploadStep crates broker schemaId) ⟨w, [], accepted⟩ ts s) :
    (∀ s ∈ states ⟨w, [], accepted⟩ ts, Consistent crates broker schemaId s) ↔
      ∀ t ∈ ts, UpToDate crates t.before t.label := by
  have hstart : Steady crates schemaId ⟨w, [], accepted⟩ :=
    ⟨hhistory, fun _ => ⟨.new 0 0 0, .finished⟩, nofun, nofun, nofun, nofun⟩
  exact Run.states_iff hstart (fun s h => h.consistent broker)
    (fun s l s' h next hl => h.step next hl hshow) (fun s l s' _ next hl => not_consistent next hl) hrun

end Invariant

/-! ## Two requests for one version -/

/-- Both handlers read the versions of the schema before one of them sets its own. -/
def raceLabels : List UploadLabel :=
  [.arrive (Uuid.toText 1) "2.0.0" "\x7b\x7d", .arrive (Uuid.toText 1) "2.0.0" "\x7b\x7d"] ++
    ([0, 0, 0, 0, 1, 1, 1, 1, 0, 0, 0, 0, 0, 0, 1, 1, 1, 1, 1, 1].map .call)

def sampleUploads : Uploads := ⟨sampleWorld sampleGraph 3 4, [], [(.new 1 0 0, 2)]⟩

theorem history_sampleGraph : History sampleCrates sampleGraph 1 [(.new 1 0 0, 2)] := by
  have hkept : Kept sampleCrates sampleRegistered :=
    kept_step _ _ _ kept_initially registers_sampleGraph readsBack_sample
  have haccepted : (sampleRegistered.history 1).map (fun a => (a.version, a.definitionId)) =
      [(.new 1 0 0, 2)] := by decide +kernel
  exact haccepted ▸ hkept.history 1

theorem run_race : ∃ ts s, Run (UploadStep sampleCrates sampleBroker 1) sampleUploads ts s ∧
    s.accepted.map (·.1) = [.new 1 0 0, .new 2 0 0, .new 2 0 0] := by
  have hrace : (raceLabels.foldlM (Uploads.step sampleCrates sampleBroker 1) sampleUploads).map
      (fun s => s.accepted.map (·.1)) = some [.new 1 0 0, .new 2 0 0, .new 2 0 0] := by
    decide +kernel
  obtain ⟨s, hs, haccepted⟩ := Option.map_eq_some_iff.mp hrace
  obtain ⟨ts, hrun, -⟩ := Run.of_steps hs
  exact ⟨ts, s, hrun, haccepted⟩

theorem showVersion_parseVersion_sample (text : String) (version : Version)
    (h : sampleCrates.parseVersion text = .ok version) :
    sampleCrates.parseVersion (sampleCrates.showVersion version) = .ok version := by
  have hcases : version = .new 1 0 0 ∨ version = .new 2 0 0 := by
    unfold sampleCrates at h
    dsimp only at h
    split at h
    · exact Or.inl (Except.ok.inj h).symm
    · split at h
      · exact Or.inr (Except.ok.inj h).symm
      · cases h
  rcases hcases with rfl | rfl
  · exact readsBack_sample
  · exact readsBack_newer

theorem consistent_iff_race : ∃ ts s, Run (UploadStep sampleCrates sampleBroker 1) sampleUploads ts s ∧
    ((∀ s ∈ states sampleUploads ts, Consistent sampleCrates sampleBroker 1 s) ↔
      ∀ t ∈ ts, UpToDate sampleCrates t.before t.label) := by
  obtain ⟨ts, s, hrun, -⟩ := run_race
  exact ⟨ts, s, hrun, consistent_iff history_sampleGraph showVersion_parseVersion_sample hrun⟩

theorem not_consistent_race : ¬ ∀ (w : World) (accepted : List (Version × Uuid))
    (ts : List (Transition Uploads UploadLabel)) (s : Uploads),
    History sampleCrates w.graph 1 accepted →
    Run (UploadStep sampleCrates sampleBroker 1) ⟨w, [], accepted⟩ ts s →
    ∀ s ∈ states ⟨w, [], accepted⟩ ts, Consistent sampleCrates sampleBroker 1 s := by
  intro h
  obtain ⟨ts, s, hrun, haccepted⟩ := run_race
  have hincreasing := (h _ _ ts s history_sampleGraph hrun s hrun.last_mem_states).increasing
  rw [← List.pairwise_map (f := Prod.fst) (R := fun a b : Version => compare a b = .lt),
    haccepted] at hincreasing
  exact absurd hincreasing (by decide)

end CommonDataLayer.SchemaRegistry
