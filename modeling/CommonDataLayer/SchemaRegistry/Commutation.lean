import CommonDataLayer.SchemaRegistry.EventWrites
import CommonDataLayer.SchemaRegistry.WellTyped

/-! # Events with different keys do not commute

A broker keeps the order of messages with equal keys only. Two events with different keys that a
registry takes in one order can fail, or leave another definition, in the other order: `updateView`
has the identifier of the view as its key and `addViewToSchema` that of the schema, and a definition
is resolved when its event is applied (`Dependent`).

`commute_iff`: in the other order both succeed and leave the same registry, up to the identifiers of
the new definitions, exactly if the events are not dependent.
-/
namespace CommonDataLayer.SchemaRegistry
open Interaction PropertyGraph
set_option autoImplicit false

/-- Two graphs that `s` has become are the same, when the `DEFINITION` vertices that are not in `s`
are renamed. -/
def EqUpToNewDefinitions (s g g' : Graph) : Prop := ∃ σ : Equiv.Perm Uuid, Graph.Iso σ g g' ∧
  (∀ id, s.vertexAt id ≠ none → σ id = id) ∧
  ∀ id vertex, g.vertexAt id = some vertex → vertex.t ≠ .definition → σ id = id

theorem EqUpToNewDefinitions.eqUpToDefinitions {s g g' : Graph} (h : EqUpToNewDefinitions s g g') :
    EqUpToDefinitions g g' := by
  obtain ⟨σ, hiso, -, hfix⟩ := h
  exact ⟨σ, hiso, hfix⟩

/-! ## What makes events dependent -/

/-- The first event adds to a schema that the second one refers to, and what it adds, resolved, is
not the latest definition that the schema has. -/
def Outdates (crates : Crates) (s : Graph) (e e' : ReplicationEvent) : Prop :=
  ∃ definition definition', e.definition = some definition ∧ e'.definition = some definition' ∧
    e.key ∈ references crates definition' ∧
    ¬ ∃ full, fullSchema crates s definition = .ok full ∧
      latestValue crates s e.key = .ok full.definition

/-- The second event needs the view that the first one creates, or the definition of one of them
outdates a reference in the other one. -/
def Dependent (crates : Crates) (s : Graph) (e e' : ReplicationEvent) : Prop :=
  (∃ id, e.creates = some id ∧ e'.requires = some id) ∨
    Outdates crates s e e' ∨ Outdates crates s e' e

/-! ## Two events, one after the other -/

/-- Both events succeed. They draw `d` and `d'` for their definitions `full` and `full'`. -/
structure InTurn (crates : Crates) (s : Graph) (e e' : ReplicationEvent) (d d' : Uuid)
    (full full' : Definition) : Prop where
  first : e.Ready crates s full
  firstDraws : e.Draws s (e.given ++ e'.given) d
  second : e'.Ready crates (e.write crates d full s) full'
  secondDraws : e'.Draws (e.write crates d full s) (e.given ++ e'.given) d'

section Order
variable {crates : Crates} {s g : Graph} {e e' event : ReplicationEvent} {d d' i : Uuid}
  {full full' : Definition} {given : List Uuid}

theorem ReplicationEvent.Draws.own (h : event.Draws g given d) (hgiven : event.given ⊆ given) :
    event.Draws g event.given d :=
  fun hdefinition => ⟨(h hdefinition).1, fun hmem => (h hdefinition).2 (hgiven hmem)⟩

theorem ReplicationEvent.Draws.of_mono {g' : Graph} (h : event.Draws g' given d)
    (hmono : g'.vertexAt d = none → g.vertexAt d = none) : event.Draws g given d :=
  fun hdefinition => ⟨hmono (h hdefinition).1, (h hdefinition).2⟩

namespace InTurn
variable (h : InTurn crates s e e' d d' full full')
include h

theorem draws : e.Draws s e.given d := h.firstDraws.own (List.subset_append_left _ _)

theorem draws' : e'.Draws (e.write crates d full s) e'.given d' :=
  h.secondDraws.own (List.subset_append_right _ _)

theorem free_of_write (hi : (e.write crates d full s).vertexAt i = none) : s.vertexAt i = none := by
  by_contra hne
  exact ReplicationEvent.vertexAt_write_mono h.first h.draws hne hi

/-- What the second event draws is new in the graph before both. -/
theorem secondDraws_start : e'.Draws s (e.given ++ e'.given) d' :=
  h.secondDraws.of_mono h.free_of_write

theorem draws_ne (hdefinition : e.definition ≠ none) (hdefinition' : e'.definition ≠ none) :
    d ≠ d' := by
  intro heq
  have hnew := (h.secondDraws hdefinition').1
  rw [← heq, ReplicationEvent.vertexAt_write_definition h.first h.draws hdefinition] at hnew
  cases hnew

/-- The second event can come first: all it needs is there, and its definition resolves as before. -/
theorem second_ready (hkey : e.key ≠ e'.key)
    (hview : ∀ id, e.creates = some id → e'.requires ≠ some id)
    (hfull : ∀ definition, e'.definition = some definition →
      fullSchema crates s definition = .ok full') : e'.Ready crates s full' := by
  refine h.second.congr (fun i hi => ?_) (fun i hi => h.free_of_write (h.second.creates hi))
    (ReplicationEvent.versions_write h.first h.draws hkey.symm).symm hfull
  have hgiven := List.mem_append_right e.given (ReplicationEvent.requires_mem_given hi)
  rw [ReplicationEvent.vertexAt_write h.first h.draws, ReplicationEvent.vertexAfter_of_notMem]
  intro htouched
  rcases ReplicationEvent.mem_touched htouched with ⟨hdefinition, rfl⟩ | hcreates | hrequires
  · exact (h.firstDraws hdefinition).2 hgiven
  · exact hview i hcreates hi
  · exact hkey ((ReplicationEvent.requires_eq_key hrequires).symm.trans
      (ReplicationEvent.requires_eq_key hi))

/-- The first event can come second. -/
theorem first_ready (hkey : e.key ≠ e'.key)
    (hview : ∀ id, e.creates = some id → e'.requires ≠ some id) {d₂ : Uuid}
    (hready : e'.Ready crates s full') (hd₂ : e'.Draws s (e.given ++ e'.given) d₂)
    (hfull : ∀ definition, e.definition = some definition →
      fullSchema crates (e'.write crates d₂ full' s) definition = .ok full) :
    e.Ready crates (e'.write crates d₂ full' s) full := by
  have hdraws : e'.Draws s e'.given d₂ := hd₂.own (List.subset_append_right _ _)
  have hsame {i : Uuid} (hnot : i ∉ e'.touched d₂) :
      (e'.write crates d₂ full' s).vertexAt i = s.vertexAt i := by
    rw [ReplicationEvent.vertexAt_write hready hdraws, ReplicationEvent.vertexAfter_of_notMem hnot]
  refine h.first.congr (fun i hi => hsame fun htouched => ?_) (fun i hi => ?_)
    (ReplicationEvent.versions_write hready hdraws hkey) hfull
  · have hgiven := List.mem_append_left e'.given (ReplicationEvent.requires_mem_given hi)
    rcases ReplicationEvent.mem_touched htouched with ⟨hdefinition, rfl⟩ | hcreates | hrequires
    · exact (hd₂ hdefinition).2 hgiven
    · exact h.first.requires hi (hready.creates hcreates)
    · exact hkey ((ReplicationEvent.requires_eq_key hi).symm.trans
        (ReplicationEvent.requires_eq_key hrequires))
  · have hgiven := List.mem_append_left e'.given (ReplicationEvent.creates_mem_given hi)
    refine (hsame fun htouched => ?_).trans (h.first.creates hi)
    rcases ReplicationEvent.mem_touched htouched with ⟨hdefinition, rfl⟩ | hcreates | hrequires
    · exact (hd₂ hdefinition).2 hgiven
    · exact ReplicationEvent.vertexAt_write_creates h.first h.draws hi (h.second.creates hcreates)
    · exact hview i hi hrequires

/-- Events that are ready in both orders touch different vertices. -/
theorem notMem_touched (hkey : e.key ≠ e'.key) (hready : e'.Ready crates s full')
    (hi : i ∈ e.touched d) : i ∉ e'.touched d' := by
  intro hi'
  rcases ReplicationEvent.mem_touched hi with ⟨hdefinition, rfl⟩ | hcreates | hrequires
  · have hnamed (hmem : i ∈ e'.given) : False :=
      (h.firstDraws hdefinition).2 (List.mem_append_right _ hmem)
    rcases ReplicationEvent.mem_touched hi' with ⟨hdefinition', rfl⟩ | hcreates' | hrequires'
    · exact h.draws_ne hdefinition hdefinition' rfl
    · exact hnamed (ReplicationEvent.creates_mem_given hcreates')
    · exact hnamed (ReplicationEvent.requires_mem_given hrequires')
  · have hnamed := List.mem_append_left e'.given (ReplicationEvent.creates_mem_given hcreates)
    rcases ReplicationEvent.mem_touched hi' with ⟨hdefinition', rfl⟩ | hcreates' | hrequires'
    · exact (h.secondDraws hdefinition').2 hnamed
    · exact ReplicationEvent.vertexAt_write_creates h.first h.draws hcreates
        (h.second.creates hcreates')
    · exact hready.requires hrequires' (h.first.creates hcreates)
  · have hnamed := List.mem_append_left e'.given (ReplicationEvent.requires_mem_given hrequires)
    rcases ReplicationEvent.mem_touched hi' with ⟨hdefinition', rfl⟩ | hcreates' | hrequires'
    · exact (h.secondDraws hdefinition').2 hnamed
    · exact h.first.requires hrequires (hready.creates hcreates')
    · exact hkey ((ReplicationEvent.requires_eq_key hrequires).symm.trans
        (ReplicationEvent.requires_eq_key hrequires'))

theorem write_comm (hkey : e.key ≠ e'.key) (hready : e'.Ready crates s full')
    (hready₂ : e.Ready crates (e'.write crates d' full' s) full) :
    e'.write crates d' full' (e.write crates d full s) =
      e.write crates d full (e'.write crates d' full' s) := by
  have hdraws : e'.Draws s e'.given d' := h.secondDraws_start.own (List.subset_append_right _ _)
  have hdraws₂ : e.Draws (e'.write crates d' full' s) e.given d := by
    intro hdefinition
    obtain ⟨hfree, hgiven⟩ := h.draws hdefinition
    refine ⟨?_, hgiven⟩
    have hnot : d ∉ e'.touched d' := h.notMem_touched hkey hready (by
      cases e with
      | addSchema => exact List.mem_cons_of_mem _ List.mem_cons_self
      | addSchemaVersion => exact List.mem_cons_self
      | _ => exact absurd rfl hdefinition)
    rw [ReplicationEvent.vertexAt_write hready hdraws, ReplicationEvent.vertexAfter_of_notMem hnot,
      hfree]
  refine Graph.ext_lookup (fun i => ?_) fun key => ?_
  · rw [ReplicationEvent.vertexAt_write h.second h.draws',
      ReplicationEvent.vertexAt_write h.first h.draws,
      ReplicationEvent.vertexAt_write hready₂ hdraws₂, ReplicationEvent.vertexAt_write hready hdraws]
    by_cases hi : i ∈ e.touched d
    · have hi' := h.notMem_touched hkey hready hi
      rw [ReplicationEvent.vertexAfter_of_notMem hi', ReplicationEvent.vertexAfter_of_notMem hi']
    · rw [ReplicationEvent.vertexAfter_of_notMem hi, ReplicationEvent.vertexAfter_of_notMem hi]
  · rw [ReplicationEvent.edgeAt_write h.second h.draws', ReplicationEvent.edgeAt_write h.first h.draws,
      ReplicationEvent.edgeAt_write hready₂ hdraws₂, ReplicationEvent.edgeAt_write hready hdraws]
    by_cases hout : key.outboundId = e.key
    · have hout' : key.outboundId ≠ e'.key := hout ▸ hkey
      rw [ReplicationEvent.edgeAfter_of_ne hout', ReplicationEvent.edgeAfter_of_ne hout']
    · rw [ReplicationEvent.edgeAfter_of_ne hout, ReplicationEvent.edgeAfter_of_ne hout]

end InTurn

/-! ## Other identifiers for the new definitions -/

/-- A renaming of two identifiers that are used, and of nothing else but these and their names. -/
theorem exists_renaming {P Q : Prop} {d₁ d₂ : Uuid} (hne : P → Q → d ≠ d')
    (hne' : P → Q → d₁ ≠ d₂) : ∃ σ : Equiv.Perm Uuid, (P → σ d = d₁) ∧ (Q → σ d' = d₂) ∧
      ∀ i, σ i ≠ i → P ∧ (i = d ∨ i = d₁) ∨ Q ∧ (i = d' ∨ i = d₂) := by
  have hswap (a b i : Uuid) (hi : Equiv.swap a b i ≠ i) : i = a ∨ i = b := by
    by_contra hnot
    exact hi (Equiv.swap_apply_of_ne_of_ne (not_or.mp hnot).1 (not_or.mp hnot).2)
  by_cases hP : P
  · by_cases hQ : Q
    · refine ⟨(Equiv.swap d d₁).trans (Equiv.swap (Equiv.swap d d₁ d') d₂), fun _ => ?_, fun _ => ?_,
        fun i hi => ?_⟩
      · rw [Equiv.trans_apply, Equiv.swap_apply_left]
        refine Equiv.swap_apply_of_ne_of_ne (fun heq => ?_) (hne' hP hQ)
        have hsame : Equiv.swap d d₁ d = Equiv.swap d d₁ d' := (Equiv.swap_apply_left d d₁).trans heq
        exact hne hP hQ ((Equiv.swap d d₁).injective hsame)
      · rw [Equiv.trans_apply, Equiv.swap_apply_left]
      · by_contra hnot
        simp only [hP, hQ, true_and, not_or] at hnot
        obtain ⟨⟨hd, hd₁⟩, hd', hd₂⟩ := hnot
        have hfirst := Equiv.swap_apply_of_ne_of_ne hd hd₁
        rw [Equiv.trans_apply, hfirst] at hi
        refine (hswap _ _ i hi).elim (fun heq => hd' ?_) hd₂
        exact (Equiv.swap d d₁).injective (hfirst.trans heq)
    · exact ⟨Equiv.swap d d₁, fun _ => Equiv.swap_apply_left _ _, fun h => absurd h hQ,
        fun i hi => Or.inl ⟨hP, hswap _ _ i hi⟩⟩
  · by_cases hQ : Q
    · exact ⟨Equiv.swap d' d₂, fun h => absurd h hP, fun _ => Equiv.swap_apply_left _ _,
        fun i hi => Or.inr ⟨hQ, hswap _ _ i hi⟩⟩
    · exact ⟨Equiv.refl _, fun h => absurd h hP, fun h => absurd h hQ, fun i hi => absurd rfl hi⟩

theorem InTurn.eqUpToNewDefinitions (h : InTurn crates s e e' d d' full full')
    (hkey : e.key ≠ e'.key) {d₁ d₂ : Uuid} (h' : InTurn crates s e' e d₂ d₁ full' full)
    (hready₂ : e.Ready crates (e'.write crates d' full' s) full) :
    EqUpToNewDefinitions s (e'.write crates d' full' (e.write crates d full s))
      (e.write crates d₁ full (e'.write crates d₂ full' s)) := by
  have hne : e.definition ≠ none → e'.definition ≠ none → d₁ ≠ d₂ :=
    fun hP hQ => (h'.draws_ne hQ hP).symm
  obtain ⟨σ, hσ, hσ', hmoved⟩ := exists_renaming h.draws_ne hne
  have hfree : ∀ i, σ i ≠ i → s.vertexAt i = none ∧ i ∉ e.given ++ e'.given := by
    intro i hi
    have hcomm (hnot : i ∉ e'.given ++ e.given) : i ∉ e.given ++ e'.given := fun hmem =>
      hnot (List.mem_append.mpr (List.mem_append.mp hmem).symm)
    rcases hmoved i hi with ⟨hP, rfl | rfl⟩ | ⟨hQ, rfl | rfl⟩
    · exact h.firstDraws hP
    · exact (h'.secondDraws_start hP).imp_right hcomm
    · exact h.secondDraws_start hQ
    · exact (h'.firstDraws hQ).imp_right hcomm
  have hfix (i : Uuid) (hi : i ∈ e.given ++ e'.given) : σ i = i := by
    by_contra hne
    exact (hfree i hne).2 hi
  refine ⟨σ, ?_, fun i hi => ?_, fun i vertex hi ht => ?_⟩
  · have hfirst : e.write crates (σ d) full (e'.write crates (σ d') full' s) =
        e.write crates d₁ full (e'.write crates d₂ full' s) := by
      have hsame {event : ReplicationEvent} {a b : Uuid} (hab : event.definition ≠ none → a = b)
          (full : Definition) (g : Graph) :
          event.write crates a full g = event.write crates b full g := by
        by_cases hnone : event.definition = none
        · exact ReplicationEvent.write_noDefinition hnone a b full full
        · rw [hab hnone]
      rw [hsame hσ, hsame hσ']
    rw [h.write_comm hkey h'.first hready₂, ← hfirst]
    have hiso : Graph.Iso σ s s := .of_fresh fun i hi => (hfree i hi).1
    refine ReplicationEvent.iso_write (ReplicationEvent.iso_write hiso fun i hi => ?_) fun i hi => ?_
    · exact hfix i (List.mem_append_right _ hi)
    · exact hfix i (List.mem_append_left _ hi)
  · by_contra hne
    exact hi (hfree i hne).1
  · by_contra hne
    obtain ⟨hnone, hgiven⟩ := hfree i hne
    have hnot : i ∉ e.given := fun hmem => hgiven (List.mem_append_left _ hmem)
    have hnot' : i ∉ e'.given := fun hmem => hgiven (List.mem_append_right _ hmem)
    have hdefinition : ∀ vertex, (e'.write crates d' full' (e.write crates d full s)).vertexAt i =
        some vertex → vertex.t = .definition := by
      intro vertex hvertex
      rcases ReplicationEvent.vertexAt_write_cases h.second h.draws' hnot' with heq | ⟨v, hv, ht⟩
      · rw [heq] at hvertex
        rcases ReplicationEvent.vertexAt_write_cases h.first h.draws hnot with heq | ⟨v, hv, ht⟩
        · rw [heq, hnone] at hvertex
          cases hvertex
        · rw [hv] at hvertex
          exact Option.some.inj hvertex ▸ ht
      · rw [hv] at hvertex
        exact Option.some.inj hvertex ▸ ht
    exact ht (hdefinition vertex hi)

/-! ## What the new definitions show -/

/-- In the graph that `s` has become, a schema has one more definition than in `s`. -/
structure Adds (s g : Graph) (id d : Uuid) (full : Definition) : Prop where
  vertex : g.vertexAt d = some ⟨.definition, Graph.propsOf full.intoProperties⟩
  edge : g.edgeAt (schemaDefinitionKey id d) ≠ none
  edges : ∀ v, g.edgeAt (schemaDefinitionKey id v) ≠ none →
    v = d ∨ s.edgeAt (schemaDefinitionKey id v) ≠ none
  fixed : s.vertexAt id ≠ none ∨ ∃ vertex, g.vertexAt id = some vertex ∧ vertex.t ≠ .definition

/-- The one definition is the same in graphs that are the same. -/
theorem Adds.unique {g' : Graph} (h : Adds s g i d full) (h' : Adds s g' i d' full')
    (hfree : s.vertexAt d = none) (hsame : EqUpToNewDefinitions s g g') : full = full' := by
  obtain ⟨σ, hiso, hold, hnew⟩ := hsame
  have hfixed : σ i = i := h.fixed.elim (hold i) fun ⟨vertex, hvertex, ht⟩ => hnew i vertex hvertex ht
  have hedge := h.edge
  rw [← hiso.edgeAt, PropertyGraph.EdgeKey.map, schemaDefinitionKey] at hedge
  dsimp only at hedge
  rw [hfixed] at hedge
  have hd : σ d = d' := by
    refine (h'.edges (σ d) hedge).resolve_right fun hs => ?_
    have hexists : s.vertexAt (σ d) ≠ none := (Graph.endpoints_of_edgeAt hs).2
    rw [σ.injective (hold (σ d) hexists)] at hexists
    exact hexists hfree
  have hvertex := hiso.vertexAt d
  rw [hd, h.vertex, h'.vertex, Option.some.injEq] at hvertex
  have hvalue := congrArg (fun vertex : Vertex => vertex.props .definition) hvertex
  have hvalue : some full'.definition = some full.definition := hvalue
  cases full
  cases full'
  exact congrArg Definition.mk (Option.some.inj hvalue).symm

/-- The definition edge of an event that adds to a schema. -/
theorem edgeAfter_definition (hdefinition : event.definition ≠ none) (v : Uuid)
    (old : Option (Props PropName Value)) :
    (v = d → event.edgeAfter crates d (schemaDefinitionKey event.key v) old ≠ none) ∧
    (event.edgeAfter crates d (schemaDefinitionKey event.key v) old ≠ none → v = d ∨ old ≠ none) := by
  have hedge (id : Uuid) (props : Props PropName Value) :
      (v = d → (if schemaDefinitionKey id d = schemaDefinitionKey id v then some props else old) ≠
        none) ∧
      ((if schemaDefinitionKey id d = schemaDefinitionKey id v then some props else old) ≠ none →
        v = d ∨ old ≠ none) := by
    constructor
    · rintro rfl
      rw [if_pos rfl]
      exact Option.some_ne_none _
    · intro h
      by_cases hv : v = d
      · exact Or.inl hv
      · have hne : schemaDefinitionKey id d ≠ schemaDefinitionKey id v := fun heq =>
          hv (congrArg PropertyGraph.EdgeKey.inboundId heq).symm
        rw [if_neg hne] at h
        exact Or.inr h
  cases event with
  | addSchema => exact hedge _ _
  | addSchemaVersion => exact hedge _ _
  | _ => exact absurd rfl hdefinition

/-- The schema of a new definition was there, or is new. -/
theorem key_fixed (h : event.Ready crates s full) (hd : event.Draws s event.given d)
    (hdefinition : event.definition ≠ none) : event.requires = some event.key ∨
      ∃ vertex, (event.write crates d full s).vertexAt event.key = some vertex ∧
        vertex.t ≠ .definition := by
  cases event with
  | addSchema schema id =>
    refine Or.inr ⟨⟨.schema, Graph.propsOf schema.split.1.intoProperties⟩, ?_, nofun⟩
    rw [ReplicationEvent.vertexAt_write h hd]
    have hne : d ≠ id := fun heq => (hd hdefinition).2 (heq ▸ List.mem_cons_self)
    exact (if_neg hne).trans (if_pos rfl)
  | addSchemaVersion id newVersion => exact Or.inl rfl
  | _ => exact absurd rfl hdefinition

namespace InTurn
variable (h : InTurn crates s e e' d d' full full') (hkey : e.key ≠ e'.key)
include h hkey

/-- What was there, or what the first event wrote under its key, is not touched by the second. -/
theorem adds_first (hdefinition : e.definition ≠ none) :
    Adds s (e'.write crates d' full' (e.write crates d full s)) e.key d full := by
  have hedges (v : Uuid) : (e'.write crates d' full' (e.write crates d full s)).edgeAt
      (schemaDefinitionKey e.key v) =
        e.edgeAfter crates d (schemaDefinitionKey e.key v) (s.edgeAt (schemaDefinitionKey e.key v)) := by
    rw [ReplicationEvent.edgeAt_write h.second h.draws', ReplicationEvent.edgeAfter_of_ne hkey,
      ReplicationEvent.edgeAt_write h.first h.draws]
  refine ⟨?_, ?_, fun v hv => ?_, ?_⟩
  · have hnamed (hmem : d ∈ e'.given) : False :=
      (h.firstDraws hdefinition).2 (List.mem_append_right _ hmem)
    rw [ReplicationEvent.vertexAt_write h.second h.draws', ReplicationEvent.vertexAfter_of_notMem,
      ReplicationEvent.vertexAt_write_definition h.first h.draws hdefinition]
    intro htouched
    rcases ReplicationEvent.mem_touched htouched with ⟨hdefinition', heq⟩ | hcreates | hrequires
    · exact h.draws_ne hdefinition hdefinition' heq
    · exact hnamed (ReplicationEvent.creates_mem_given hcreates)
    · exact hnamed (ReplicationEvent.requires_mem_given hrequires)
  · rw [hedges]
    exact (edgeAfter_definition hdefinition d _).1 rfl
  · rw [hedges] at hv
    exact (edgeAfter_definition hdefinition v _).2 hv
  · refine (key_fixed h.first h.draws hdefinition).imp h.first.requires fun ⟨vertex, hvertex, ht⟩ => ?_
    refine ⟨vertex, ?_, ht⟩
    rw [ReplicationEvent.vertexAt_write h.second h.draws', ReplicationEvent.vertexAfter_of_notMem,
      hvertex]
    intro htouched
    rcases ReplicationEvent.mem_touched htouched with ⟨hdefinition', heq⟩ | hcreates | hrequires
    · exact (h.secondDraws hdefinition').2 (List.mem_append_left _ (heq ▸ ReplicationEvent.key_mem_given))
    · rw [h.second.creates hcreates] at hvertex
      cases hvertex
    · exact hkey (ReplicationEvent.requires_eq_key hrequires)

theorem adds_second {other : Definition} (hready : e'.Ready crates s other)
    (hdefinition : e'.definition ≠ none) :
    Adds s (e'.write crates d' full' (e.write crates d full s)) e'.key d' full' := by
  have hedges (v : Uuid) : (e'.write crates d' full' (e.write crates d full s)).edgeAt
      (schemaDefinitionKey e'.key v) =
        e'.edgeAfter crates d' (schemaDefinitionKey e'.key v)
          (s.edgeAt (schemaDefinitionKey e'.key v)) := by
    have hfirst : (e.write crates d full s).edgeAt (schemaDefinitionKey e'.key v) =
        s.edgeAt (schemaDefinitionKey e'.key v) := by
      rw [ReplicationEvent.edgeAt_write h.first h.draws]
      exact ReplicationEvent.edgeAfter_of_ne hkey.symm _
    rw [ReplicationEvent.edgeAt_write h.second h.draws', hfirst]
  refine ⟨ReplicationEvent.vertexAt_write_definition h.second h.draws' hdefinition, ?_, fun v hv => ?_,
    ?_⟩
  · rw [hedges]
    exact (edgeAfter_definition hdefinition d' _).1 rfl
  · rw [hedges] at hv
    exact (edgeAfter_definition hdefinition v _).2 hv
  · exact (key_fixed h.second h.draws' hdefinition).imp_left hready.requires

end InTurn

/-! ## The other order -/

theorem fullSchema_of_not_outdates (h : event.Ready crates s full)
    (hd : event.Draws s event.given d) (hversion : event.ReadsBack crates) {other : ReplicationEvent}
    (hnot : ¬ Outdates crates s event other) {definition : Value}
    (hdefinition : other.definition = some definition) :
    fullSchema crates (event.write crates d full s) definition = fullSchema crates s definition := by
  refine fullSchema_congr fun id hid => ?_
  by_cases hsame : event.definition = none ∨ id ≠ event.key
  · exact ReplicationEvent.latestValue_write h hd hsame
  · obtain ⟨hadds, hkey⟩ := not_or.mp hsame
    obtain ⟨added, hadded⟩ := Option.ne_none_iff_exists'.mp hadds
    rw [not_not] at hkey
    rw [hkey] at hid ⊢
    have hlatest : ∃ full, fullSchema crates s added = .ok full ∧
        latestValue crates s event.key = .ok full.definition := by
      by_contra hno
      exact hnot ⟨added, definition, hadded, hdefinition, hid, hno⟩
    obtain ⟨full', hfull', hlatest⟩ := hlatest
    rw [h.fullSchema hadded, Except.ok.injEq] at hfull'
    have hexists : s.vertexAt event.key ≠ none := fun hnone => latestValue_of_free hnone _ hlatest
    rw [ReplicationEvent.latestValue_write_key h hd hversion hadds hexists, hlatest, hfull']

theorem not_outdates_of_fullSchema (h : event.Ready crates s full)
    (hd : event.Draws s event.given d) (hversion : event.ReadsBack crates) {other : ReplicationEvent}
    {definition : Value} (hdefinition : other.definition = some definition)
    (hnames : DistinctNames definition) (hs : fullSchema crates s definition = .ok full')
    (hafter : fullSchema crates (event.write crates d full s) definition = .ok full') :
    ¬ Outdates crates s event other := by
  rintro ⟨added, definition', hadded, hdefinition', hid, hno⟩
  rw [hdefinition, Option.some.injEq] at hdefinition'
  subst hdefinition'
  obtain ⟨value, hvalue, hvalue'⟩ := latestValue_of_fullSchema hnames hs hafter hid
  have hexists : s.vertexAt event.key ≠ none := fun hnone => latestValue_of_free hnone _ hvalue
  have hadds : event.definition ≠ none := by
    rw [hadded]
    exact Option.some_ne_none _
  rw [ReplicationEvent.latestValue_write_key h hd hversion hadds hexists] at hvalue'
  exact hno ⟨full, h.fullSchema hadded, hvalue.trans hvalue'.symm⟩

theorem not_outdates_of_noDefinition {other : ReplicationEvent} (h : other.definition = none) :
    ¬ Outdates crates s event other := by
  rintro ⟨_, definition, -, hdefinition, -⟩
  rw [h] at hdefinition
  cases hdefinition

/-- Two events that have succeeded succeed in the other order and leave the same, exactly if they
are not dependent. -/
theorem InTurn.other_order_iff (h : InTurn crates s e e' d d' full full') (hkey : e.key ≠ e'.key)
    (hversion : e.ReadsBack crates) (hversion' : e'.ReadsBack crates)
    (hnames : ∀ definition ∈ e.definition, DistinctNames definition)
    (hnames' : ∀ definition ∈ e'.definition, DistinctNames definition) {d₁ d₂ : Uuid}
    (hd₂ : e'.Draws s (e'.given ++ e.given) d₂)
    (hd₁ : ∀ full', e'.Ready crates s full' →
      e.Draws (e'.write crates d₂ full' s) (e'.given ++ e.given) d₁) :
    (∃ full₁ full₂, InTurn crates s e' e d₂ d₁ full₂ full₁ ∧
      EqUpToNewDefinitions s (e'.write crates d' full' (e.write crates d full s))
        (e.write crates d₁ full₁ (e'.write crates d₂ full₂ s))) ↔ ¬ Dependent crates s e e' := by
  constructor
  · rintro ⟨full₁, full₂, h', hsame⟩ hdependent
    rcases hdependent with ⟨id, hcreates, hrequires⟩ | houtdates | houtdates
    · exact h'.first.requires hrequires (h.first.creates hcreates)
    · cases hdefinition : e'.definition with
      | none => exact not_outdates_of_noDefinition hdefinition houtdates
      | some definition =>
        have hadds : e'.definition ≠ none := hdefinition ▸ Option.some_ne_none _
        have hfull : full' = full₂ := (h.adds_second hkey h'.first hadds).unique
          (h'.adds_first hkey.symm hadds) (h.secondDraws_start hadds).1 hsame
        have hs := h'.first.fullSchema hdefinition
        rw [← hfull] at hs
        exact not_outdates_of_fullSchema h.first h.draws hversion hdefinition
          (hnames' definition hdefinition) hs (h.second.fullSchema hdefinition) houtdates
    · cases hdefinition : e.definition with
      | none => exact not_outdates_of_noDefinition hdefinition houtdates
      | some definition =>
        have hadds : e.definition ≠ none := hdefinition ▸ Option.some_ne_none _
        have hfull : full = full₁ := (h.adds_first hkey hadds).unique
          (h'.adds_second hkey.symm h.first hadds) (h.firstDraws hadds).1 hsame
        have hafter := h'.second.fullSchema hdefinition
        rw [← hfull] at hafter
        exact not_outdates_of_fullSchema h'.first h'.draws hversion' hdefinition
          (hnames definition hdefinition) (h.first.fullSchema hdefinition) hafter houtdates
  · intro hnot
    obtain ⟨hview, hnot, hnot'⟩ : (¬ ∃ id, e.creates = some id ∧ e'.requires = some id) ∧
        ¬ Outdates crates s e e' ∧ ¬ Outdates crates s e' e := by
      simpa only [Dependent, not_or] using hnot
    have hview : ∀ id, e.creates = some id → e'.requires ≠ some id := fun id hcreates hrequires =>
      hview ⟨id, hcreates, hrequires⟩
    have hready : e'.Ready crates s full' := h.second_ready hkey hview fun definition hdefinition => by
      rw [← fullSchema_of_not_outdates h.first h.draws hversion hnot hdefinition]
      exact h.second.fullSchema hdefinition
    have hready₂ {d₂ : Uuid} (hd₂ : e'.Draws s (e.given ++ e'.given) d₂) :
        e.Ready crates (e'.write crates d₂ full' s) full :=
      h.first_ready hkey hview hready hd₂ fun definition hdefinition => by
        rw [fullSchema_of_not_outdates hready (hd₂.own (List.subset_append_right _ _)) hversion' hnot'
          hdefinition]
        exact h.first.fullSchema hdefinition
    have hd₂' : e'.Draws s (e.given ++ e'.given) d₂ := fun hdefinition =>
      (hd₂ hdefinition).imp_right fun hnot hmem =>
        hnot (List.mem_append.mpr (List.mem_append.mp hmem).symm)
    have h' : InTurn crates s e' e d₂ d₁ full' full :=
      ⟨hready, hd₂, hready₂ hd₂', hd₁ full' hready⟩
    exact ⟨full, full', h', h.eqUpToNewDefinitions hkey h' (hready₂ h.secondDraws_start)⟩

end Order

/-! ## The consumer of a Slave -/

section Consumer
variable {crates : Crates} {broker : Broker} {message : MessagingSystem.CommunicationMessage}
  {event : ReplicationEvent} {w w' : World}

/-- The message holds the event. -/
def Carries (crates : Crates) (message : MessagingSystem.CommunicationMessage)
    (event : ReplicationEvent) : Prop :=
  ∃ text, message.payload = .ok text ∧ crates.parseEvent text = .ok event

theorem Fresh.draws {draw : ℕ → Uuid} {g : Graph} {given : List Uuid} (h : Fresh draw g given) :
    event.Draws g given (draw 0) :=
  fun _ => ⟨h.free 0 (by omega), h.notGiven 0 (by omega)⟩

theorem run_carried (hmessage : Carries crates message event) :
    run broker (Slave.consumeMessage crates message) w =
      run broker (Slave.apply crates event >>= fun _ => Slave.ack) w := by
  obtain ⟨text, hpayload, hevent⟩ := hmessage
  exact run_consumeMessage_of_event w hpayload hevent

theorem run_ack_graph (w : World) : (run broker Slave.ack w).2.graph = w.graph := by
  rw [Slave.ack, run_onError]
  rfl

/-- The graph that the consumer leaves, whether the message can be acknowledged or not. -/
theorem consumeMessage_graph (hmessage : Carries crates message event)
    (hfresh : Fresh w.supply w.graph event.given) :
    (run broker (Slave.consumeMessage crates message) w).2.graph =
      (event.outcome crates w.supply w.graph).toOption.getD w.graph := by
  obtain ⟨-, hgraph⟩ := leaves_apply w hfresh
  rw [run_carried hmessage, ← hgraph]
  cases hrun : run broker (Slave.apply crates event) w with
  | mk r mid =>
    cases r with
    | ok _ => rw [run_bind_ok hrun, run_ack_graph]
    | error e => rw [run_bind_error hrun]

theorem outcome_of_consumed (hmessage : Carries crates message event)
    (hfresh : Fresh w.supply w.graph event.given)
    (hrun : run broker (Slave.consumeMessage crates message) w = (.ok (), w')) :
    event.outcome crates w.supply w.graph = .ok w'.graph := by
  rw [run_carried hmessage] at hrun
  obtain ⟨_, mid, happly, hack⟩ := run_bind_eq_ok.mp hrun
  have hmid : (run broker Slave.ack mid).2.graph = mid.graph := run_ack_graph mid
  obtain ⟨hresult, hgraph⟩ := leaves_apply w hfresh
  rw [hack] at hmid
  rw [happly] at hresult hgraph
  cases houtcome : event.outcome crates w.supply w.graph with
  | error e =>
    rw [houtcome] at hresult
    cases hresult
  | ok g =>
    rw [houtcome] at hgraph
    exact congrArg Except.ok (hgraph.symm.trans hmid.symm)

theorem ready_of_consumed (hmessage : Carries crates message event)
    (hfresh : Fresh w.supply w.graph event.given)
    (hrun : run broker (Slave.consumeMessage crates message) w = (.ok (), w')) :
    ∃ full, event.Ready crates w.graph full ∧
      w'.graph = event.write crates (w.supply 0) full w.graph :=
  ReplicationEvent.outcome_eq_ok.mp (outcome_of_consumed hmessage hfresh hrun)

theorem consumed_of_ready (hmessage : Carries crates message event) (hack : broker.ack = .ok ())
    (hfresh : Fresh w.supply w.graph event.given) {full : Definition}
    (hready : event.Ready crates w.graph full) :
    ∃ w', run broker (Slave.consumeMessage crates message) w = (.ok (), w') ∧
      w'.graph = event.write crates (w.supply 0) full w.graph := by
  obtain ⟨text, hpayload, hevent⟩ := hmessage
  obtain ⟨hresult, hgraph⟩ := leaves_consumeMessage w hpayload hevent hack hfresh
  have houtcome : event.outcome crates w.supply w.graph = .ok _ :=
    ReplicationEvent.outcome_eq_ok.mpr ⟨full, hready, rfl⟩
  rw [houtcome] at hresult hgraph
  refine ⟨(run broker (Slave.consumeMessage crates message) w).2, Prod.ext ?_ rfl, hgraph⟩
  cases hrun : (run broker (Slave.consumeMessage crates message) w).1 with
  | ok _ => rfl
  | error e =>
    rw [hrun] at hresult
    cases hresult

/-- A Slave that has consumed two events with different keys would have consumed them in the other
order and be left with the same registry, exactly if they are not dependent. -/
theorem commute_iff {message' : MessagingSystem.CommunicationMessage} {e e' : ReplicationEvent}
    {w w₁ w₂ v : World} (hmessage : Carries crates message e) (hmessage' : Carries crates message' e')
    (hack : broker.ack = .ok ()) (hkey : e.key ≠ e'.key) (hversion : e.ReadsBack crates)
    (hversion' : e'.ReadsBack crates) (hnames : ∀ definition ∈ e.definition, DistinctNames definition)
    (hnames' : ∀ definition ∈ e'.definition, DistinctNames definition)
    (hfirst : run broker (Slave.consumeMessage crates message) w = (.ok (), w₁))
    (hsecond : run broker (Slave.consumeMessage crates message') w₁ = (.ok (), w₂))
    (hfresh : Fresh w.supply w.graph (e.given ++ e'.given))
    (hfresh₁ : Fresh w₁.supply w₁.graph (e.given ++ e'.given)) (hgraph : v.graph = w.graph)
    (hfreshv : Fresh v.supply v.graph (e'.given ++ e.given))
    (hfreshv₁ : ∀ v₁, run broker (Slave.consumeMessage crates message') v = (.ok (), v₁) →
      Fresh v₁.supply v₁.graph (e'.given ++ e.given)) :
    (∃ v₁ v₂, run broker (Slave.consumeMessage crates message') v = (.ok (), v₁) ∧
      run broker (Slave.consumeMessage crates message) v₁ = (.ok (), v₂) ∧
      EqUpToNewDefinitions w.graph w₂.graph v₂.graph) ↔ ¬ Dependent crates w.graph e e' := by
  have hleft {a b : List Uuid} := List.subset_append_left a b
  have hright {a b : List Uuid} := List.subset_append_right a b
  obtain ⟨full, hready, hw₁⟩ := ready_of_consumed hmessage (hfresh.of_subset hleft) hfirst
  obtain ⟨full', hready', hw₂⟩ := ready_of_consumed hmessage' (hfresh₁.of_subset hright) hsecond
  have hdraws' : e'.Draws _ _ _ := hfresh₁.draws
  rw [hw₁] at hready' hdraws' hw₂
  have h : InTurn crates w.graph e e' (w.supply 0) (w₁.supply 0) full full' :=
    ⟨hready, hfresh.draws, hready', hdraws'⟩
  let v₁ := (run broker (Slave.consumeMessage crates message') v).2
  have hconsumed {full₂ : Definition} (hready₂ : e'.Ready crates w.graph full₂) :
      run broker (Slave.consumeMessage crates message') v = (.ok (), v₁) ∧
        v₁.graph = e'.write crates (v.supply 0) full₂ w.graph := by
    rw [← hgraph] at hready₂ ⊢
    obtain ⟨u, hu, hgraph⟩ :=
      consumed_of_ready hmessage' hack (hfreshv.of_subset hleft) hready₂
    have hv₁ : v₁ = u := congrArg Prod.snd hu
    exact ⟨hv₁ ▸ hu, hv₁ ▸ hgraph⟩
  have hdraws₁ (full₂ : Definition) (hready₂ : e'.Ready crates w.graph full₂) :
      e.Draws (e'.write crates (v.supply 0) full₂ w.graph) (e'.given ++ e.given) (v₁.supply 0) := by
    obtain ⟨hv, hv₁⟩ := hconsumed hready₂
    exact hv₁ ▸ (hfreshv₁ v₁ hv).draws
  have hiff := h.other_order_iff hkey hversion hversion' hnames hnames' (hgraph ▸ hfreshv.draws)
    hdraws₁
  rw [← hiff, hw₂]
  constructor
  · rintro ⟨u, v₂, hu, hv₂, hsame⟩
    have hv₁ : v₁ = u := congrArg Prod.snd hu
    subst hv₁
    obtain ⟨full₂, hready₂, hgraph₁⟩ :=
      ready_of_consumed hmessage' (hfreshv.of_subset hleft) hu
    have hfreshu := hfreshv₁ v₁ hu
    obtain ⟨full₁, hready₁, hgraph₂⟩ :=
      ready_of_consumed hmessage (hfreshu.of_subset hright) hv₂
    have hdraws₂ : e'.Draws _ _ _ := hfreshv.draws
    have hdraws₁ : e.Draws _ _ _ := hfreshu.draws
    rw [hgraph] at hready₂ hgraph₁ hdraws₂
    rw [hgraph₁] at hready₁ hgraph₂ hdraws₁
    rw [hgraph₂] at hsame
    exact ⟨full₁, full₂, ⟨hready₂, hdraws₂, hready₁, hdraws₁⟩, hsame⟩
  · rintro ⟨full₁, full₂, h', hsame⟩
    obtain ⟨hv, hv₁⟩ := hconsumed h'.first
    have hready₁ : e.Ready crates v₁.graph full₁ := by
      rw [hv₁]
      exact h'.second
    obtain ⟨v₂, hv₂, hgraph₂⟩ :=
      consumed_of_ready hmessage hack ((hfreshv₁ v₁ hv).of_subset hright) hready₁
    rw [hv₁] at hgraph₂
    exact ⟨v₁, v₂, hv, hv₂, hgraph₂ ▸ hsame⟩

/-! ## A view that is updated before it is there -/

theorem run_consumeMessage {text : String} (hpayload : message.payload = .ok text)
    (hevent : crates.parseEvent text = .ok event) (hack : broker.ack = .ok ())
    (happly : run broker (Slave.apply crates event) w = (.ok (), w')) :
    run broker (Slave.consumeMessage crates message) w = (.ok (), { w' with acks := w'.acks + 1 }) := by
  rw [run_consumeMessage_of_event w hpayload hevent, run_bind_ok happly]
  exact run_ack w' hack

end Consumer

def addViewText : String :=
  "\x7b\"AddViewToSchema\":\x7b\"schema_id\":\"00000000-0000-0000-0000-000000000001\"," ++
  "\"view\":\x7b\"name\":\"view\",\"jmespath\":\"name\"\x7d," ++
  "\"view_id\":\"00000000-0000-0000-0000-000000000003\"\x7d\x7d"

def renameViewText : String :=
  "\x7b\"UpdateView\":\x7b\"id\":\"00000000-0000-0000-0000-000000000003\"," ++
  "\"view\":\x7b\"name\":\"renamed\",\"jmespath\":null\x7d\x7d\x7d"

def addViewEvent : ReplicationEvent := .addViewToSchema 1 sampleView 3

def renameViewEvent : ReplicationEvent := .updateView 3 ⟨some "renamed", none⟩

def sampleViewCrates : Crates :=
  { sampleCrates with parseEvent := fun text =>
      if text = addViewText then .ok addViewEvent
      else if text = renameViewText then .ok renameViewEvent
      else sampleCrates.parseEvent text }

def addViewMessage : MessagingSystem.CommunicationMessage := ⟨.ok (Uuid.toText 1), .ok addViewText⟩

def renameViewMessage : MessagingSystem.CommunicationMessage :=
  ⟨.ok (Uuid.toText 3), .ok renameViewText⟩

def sampleSlave : World := sampleWorld sampleGraph 5 6

def sampleSlaveAdded : World :=
  { sampleSlave with graph := withView sampleGraph 1 3 sampleView, acks := 1 }

def sampleSlaveRenamed : World :=
  { sampleSlaveAdded with
    graph := sampleSlaveAdded.graph.setVertexProperties 3 [(.viewName, .string "renamed")]
    acks := 2 }

theorem parse_addView : sampleViewCrates.parseEvent addViewText = .ok addViewEvent := by
  simp [sampleViewCrates]

theorem parse_renameView : sampleViewCrates.parseEvent renameViewText = .ok renameViewEvent := by
  have hne : renameViewText ≠ addViewText := by decide +kernel
  simp [sampleViewCrates, hne]

theorem free_sampleGraph {id : Uuid} (h1 : 1 ≠ id) (h2 : 2 ≠ id) : sampleGraph.vertexAt id = none := by
  rw [vertexAt_sampleGraph, if_neg h2, if_neg h1]

theorem fresh_sampleSlave : Fresh sampleSlave.supply sampleSlave.graph [1, 3, 3] where
  free n _ := by
    cases n with
    | zero => exact free_sampleGraph (by decide) (by decide)
    | succ n =>
      show sampleGraph.vertexAt 6 = none
      exact free_sampleGraph (by decide) (by decide)
  notGiven n _ := by
    cases n with
    | zero => decide
    | succ n =>
      show (6 : Uuid) ∉ _
      decide
  distinct := by decide

theorem fresh_sampleSlaveAdded : Fresh sampleSlaveAdded.supply sampleSlaveAdded.graph [1, 3, 3] := by
  refine ⟨fun n hn => ?_, fresh_sampleSlave.notGiven, fresh_sampleSlave.distinct⟩
  have hview : sampleGraph.vertexAt 3 = none := free_sampleGraph (by decide) (by decide)
  have hne : 3 ≠ sampleSlave.supply n := fun heq => fresh_sampleSlave.notGiven n hn (by simp [← heq])
  show (withView sampleGraph 1 3 sampleView).vertexAt (sampleSlave.supply n) = none
  rw [vertexAt_withView hview, if_neg hne]
  exact fresh_sampleSlave.free n hn

theorem run_addView :
    run sampleBroker (Slave.consumeMessage sampleViewCrates addViewMessage) sampleSlave =
      (.ok (), sampleSlaveAdded) := by
  have hschema : sampleGraph.vertexAt 1 ≠ none := by
    rw [vertexAt_sampleGraph]
    exact Option.some_ne_none _
  have hview : sampleSlave.graph.vertexAt 3 = none := free_sampleGraph (by decide) (by decide)
  have houtcome : addViewOutcome sampleViewCrates sampleSlave.supply sampleSlave.graph 1 sampleView
      (some 3) = .ok (3, withView sampleGraph 1 3 sampleView) :=
    addViewOutcome_eq_ok.mpr ⟨hschema, rfl, by simpa using hview, rfl⟩
  have hfresh : Fresh sampleSlave.supply sampleSlave.graph (1 :: (some 3).toList) :=
    fresh_sampleSlave.of_subset (by decide)
  have hrun : run sampleBroker
      (Slave.ofRegistry sampleViewCrates (addViewToSchema sampleViewCrates 1 sampleView (some 3)))
      sampleSlave = (.ok 3, { sampleSlave with graph := withView sampleGraph 1 3 sampleView }) := by
    rw [Slave.ofRegistry, run_onError, run_addViewToSchema sampleSlave hfresh, houtcome]
    rfl
  exact run_consumeMessage rfl parse_addView rfl ((run_bind_ok hrun _).trans rfl)

theorem viewAt_sampleSlaveAdded : viewAt sampleSlaveAdded.graph 3 = .ok sampleView := by
  have hview : sampleGraph.vertexAt 3 = none := free_sampleGraph (by decide) (by decide)
  rw [sampleSlaveAdded, viewAt, vertexAt_withView hview, if_pos rfl]
  rfl

theorem run_renameView :
    run sampleBroker (Slave.consumeMessage sampleViewCrates renameViewMessage) sampleSlaveAdded =
      (.ok (), sampleSlaveRenamed) := by
  have houtcome : updateViewOutcome sampleViewCrates sampleSlaveAdded.graph 3 ⟨some "renamed", none⟩ =
      .ok (sampleView, sampleSlaveRenamed.graph) :=
    updateViewOutcome_eq_ok.mpr ⟨viewAt_sampleSlaveAdded, by simp, rfl⟩
  have hrun : run sampleBroker
      (Slave.ofRegistry sampleViewCrates (updateView sampleViewCrates 3 ⟨some "renamed", none⟩))
      sampleSlaveAdded = (.ok sampleView, { sampleSlaveAdded with
        graph := sampleSlaveRenamed.graph }) := by
    rw [Slave.ofRegistry, run_onError, run_updateView, houtcome]
    rfl
  exact run_consumeMessage rfl parse_renameView rfl ((run_bind_ok hrun _).trans rfl)

/-- The rename fails where the view is not there yet. -/
theorem not_run_renameView (v : World) : run sampleBroker
    (Slave.consumeMessage sampleViewCrates renameViewMessage) sampleSlave ≠ (.ok (), v) := by
  intro hrun
  obtain ⟨full, ⟨⟨oldView, hview⟩, -⟩, -⟩ :=
    ready_of_consumed ⟨renameViewText, rfl, parse_renameView⟩
      (fresh_sampleSlave.of_subset (by decide)) hrun
  rw [viewAt, show sampleSlave.graph.vertexAt 3 = none from free_sampleGraph (by decide) (by decide)]
    at hview
  cases hview

theorem commute_iff_sampleGraph :
    (∃ v₁ v₂, run sampleBroker (Slave.consumeMessage sampleViewCrates renameViewMessage) sampleSlave =
        (.ok (), v₁) ∧
      run sampleBroker (Slave.consumeMessage sampleViewCrates addViewMessage) v₁ = (.ok (), v₂) ∧
      EqUpToNewDefinitions sampleGraph sampleSlaveRenamed.graph v₂.graph) ↔
    ¬ Dependent sampleViewCrates sampleGraph addViewEvent renameViewEvent := by
  exact commute_iff ⟨addViewText, rfl, parse_addView⟩ ⟨renameViewText, rfl, parse_renameView⟩ rfl
    (by decide) trivial trivial (fun _ => nofun) (fun _ => nofun) run_addView run_renameView
    fresh_sampleSlave fresh_sampleSlaveAdded rfl (fresh_sampleSlave.of_subset (by decide))
    fun v₁ hrun => absurd hrun (not_run_renameView v₁)

/-- The events that add a view and rename it have different keys, and only one order succeeds. -/
theorem not_commute_renamed_view :
    Performs sampleCrates sampleBroker .empty (.addSchema sampleNewSchema (some 1)) sampleGraph ∧
    addViewEvent.key ≠ renameViewEvent.key ∧
    run sampleBroker (Slave.consumeMessage sampleViewCrates addViewMessage) sampleSlave =
      (.ok (), sampleSlaveAdded) ∧
    run sampleBroker (Slave.consumeMessage sampleViewCrates renameViewMessage) sampleSlaveAdded =
      (.ok (), sampleSlaveRenamed) ∧
    ∀ v, run sampleBroker (Slave.consumeMessage sampleViewCrates renameViewMessage) sampleSlave ≠
      (.ok (), v) :=
  ⟨performs_sampleGraph, by decide, run_addView, run_renameView, not_run_renameView⟩

end CommonDataLayer.SchemaRegistry
