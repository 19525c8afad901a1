import CommonDataLayer.CommandService.VictoriaMetricsOutputPlugin
import CommonDataLayer.QueryServiceTs.Victoria

/-! # Finding the series of a message

The output plugin tags its lines with `objectId`; the query service selects by the label
`object_id`. Names are selected as they are written, so a query by schema finds the series of the
schema and no others, but a query by range finds nothing that the plugin has stored.
-/
namespace CommonDataLayer
open VictoriaMetrics CommandService.VictoriaMetricsOutputPlugin
open QueryServiceTs (Range rangeSelector schemaSelector)
set_option autoImplicit false

/-- The series of a message. -/
def created (schemaId : Uuid) (lines : List Line) : List Series :=
  lines.flatMap (Line.series schemaId.toText)

/-- The selectors for a schema and an object find all series of a message and none that was created
for another object or schema. -/
structure FoundByReader (json : Json) (schemaId objectId : Uuid) (payload : RawValue) : Prop where
  complete (request : Range) (lines : List Line) (series : Series) :
    request.schemaId = schemaId.toText → request.objectId = objectId.toText →
    buildLines json schemaId objectId payload = .ok lines → series ∈ created schemaId lines →
    (rangeSelector request).Matches series ∧ (schemaSelector schemaId.toText).Matches series
  isolated (request : Range) (otherSchema otherObject : Uuid) (otherPayload : RawValue)
      (lines : List Line) (series : Series) :
    request.schemaId = schemaId.toText → request.objectId = objectId.toText →
    buildLines json otherSchema otherObject otherPayload = .ok lines →
    series ∈ created otherSchema lines →
    (otherObject ≠ objectId ∨ otherSchema ≠ schemaId → ¬ (rangeSelector request).Matches series) ∧
      (otherSchema ≠ schemaId → ¬ (schemaSelector schemaId.toText).Matches series)

variable {json : Json} {schemaId objectId : Uuid} {payload : RawValue} {lines : List Line}

/-! ## The series of a message -/

/-- What a series of a message looks like. -/
theorem mem_created (h : buildLines json schemaId objectId payload = .ok lines) {series : Series}
    (hseries : series ∈ created schemaId lines) :
    ∃ field, series = ⟨schemaId.toText ++ "_" ++ field,
      [("db", schemaId.toText), ("objectId", objectId.toText)]⟩ := by
  obtain ⟨payloads, -, -, hlines⟩ := buildLines_ok h
  obtain ⟨line, hline, hmem⟩ := List.mem_flatMap.mp hseries
  obtain ⟨field, -, rfl⟩ := List.mem_map.mp hmem
  obtain ⟨hmeasurement, htags, -⟩ := hlines line hline
  exact ⟨field.1, by rw [hmeasurement, htags]⟩

theorem created_eq_nil (h : buildLines json schemaId objectId payload = .ok lines) :
    created schemaId lines = [] ↔ json.payloads payload.get = .ok [] := by
  obtain ⟨payloads, hpayloads, hlength, hlines⟩ := buildLines_ok h
  rw [hpayloads, Except.ok.injEq, created, List.flatMap_eq_nil_iff]
  constructor
  · intro hnil
    refine List.eq_nil_of_length_eq_zero (hlength ▸ List.length_eq_zero_iff.mpr ?_)
    refine List.eq_nil_iff_forall_not_mem.mpr fun line hline => ?_
    exact (hlines line hline).2.2 (List.map_eq_nil_iff.mp (hnil line hline))
  · rintro rfl
    rw [List.eq_nil_of_length_eq_zero hlength]
    exact List.forall_mem_nil _

/-! ## The selectors -/

/-- No series of the plugin has the label `object_id`. -/
theorem range_not_matches {request : Range} (hrequest : request.objectId = objectId.toText)
    {name db tag : String} :
    ¬ (rangeSelector request).Matches ⟨name, [("db", db), ("objectId", tag)]⟩ := by
  intro h
  have hempty : "" = objectId.toText := hrequest ▸ h
  have hlength := Uuid.length_toText objectId
  rw [← hempty] at hlength
  cases hlength

/-- The selector of a schema finds exactly the series of the schema. -/
theorem schemaSelector_matches_iff {otherSchema otherObject : Uuid}
    (h : buildLines json otherSchema otherObject payload = .ok lines) {series : Series}
    (hseries : series ∈ created otherSchema lines) :
    (schemaSelector schemaId.toText).Matches series ↔ otherSchema = schemaId := by
  obtain ⟨field, rfl⟩ := mem_created h hseries
  exact matches_names

/-- A query by range finds no series of the plugin. -/
theorem FoundByReader.created_eq_nil (hfound : FoundByReader json schemaId objectId payload)
    (hlines : buildLines json schemaId objectId payload = .ok lines) : created schemaId lines = [] := by
  refine List.eq_nil_iff_forall_not_mem.mpr fun series hseries => ?_
  obtain ⟨request, hschema, hobject⟩ : ∃ request : Range, request.schemaId = schemaId.toText ∧
      request.objectId = objectId.toText := ⟨⟨_, _, "", "", ""⟩, rfl, rfl⟩
  obtain ⟨hrange, -⟩ := hfound.complete request lines series hschema hobject hlines hseries
  obtain ⟨field, rfl⟩ := mem_created hlines hseries
  exact range_not_matches hobject hrange

/-- The series of an accepted payload are found exactly if there are none. -/
theorem foundByReader_iff {text : String}
    (h : buildLineProtocol json schemaId objectId payload = .ok text) :
    FoundByReader json schemaId objectId payload ↔ json.payloads payload.get = .ok [] := by
  obtain ⟨lines, hlines, -⟩ := Interaction.map_eq_ok.mp h
  rw [← created_eq_nil hlines]
  constructor
  · exact fun hfound => hfound.created_eq_nil hlines
  · intro hnil
    constructor
    · intro request lines' series _ _ hlines' hseries
      rw [hlines, Except.ok.injEq] at hlines'
      rw [← hlines', hnil] at hseries
      cases hseries
    · intro request otherSchema otherObject otherPayload lines' series _ hrequest hlines' hseries
      refine ⟨fun _ => ?_, fun hne hmatches => ?_⟩
      · obtain ⟨field, rfl⟩ := mem_created hlines' hseries
        exact range_not_matches hrequest
      · exact hne ((schemaSelector_matches_iff hlines' hseries).mp hmatches)

/-- One entry with one field. -/
def samplePayload : RawValue := ⟨"[\x7b\"fields\":\x7b\"y01\":1\x7d,\"ts\":123\x7d]"⟩

def sampleVictoria : Json where
  payloads text := if text = samplePayload.get then .ok [⟨[("y01", .number (.posInt 1))], 123⟩]
    else .error "expected value at line 1 column 1"
  display _ := "1"

def sampleLine : Line where
  measurement := Uuid.toText 0
  tags := [("objectId", Uuid.toText 0)]
  fields := [("y01", "1")]
  ts := 123

theorem buildLines_sample : buildLines sampleVictoria 0 0 samplePayload = .ok [sampleLine] := by
  have hpayloads : sampleVictoria.payloads samplePayload.get =
      .ok [⟨[("y01", .number (.posInt 1))], 123⟩] := by
    simp [sampleVictoria]
  rw [buildLines, hpayloads]
  rfl

theorem foundByReader_iff_sample :
    FoundByReader sampleVictoria 0 0 samplePayload ↔
      sampleVictoria.payloads samplePayload.get = .ok [] := by
  refine @foundByReader_iff _ _ _ _ ("\n".intercalate [sampleLine.toText]) ?_
  rw [buildLineProtocol, buildLines_sample]
  rfl

/-- The series of the sample is there and is not found. -/
theorem not_foundByReader_sample :
    buildLines sampleVictoria 0 0 samplePayload = .ok [sampleLine] ∧
      created 0 [sampleLine] ≠ [] ∧ ¬ FoundByReader sampleVictoria 0 0 samplePayload := by
  have hne : created 0 [sampleLine] ≠ [] := List.cons_ne_nil _ _
  exact ⟨buildLines_sample, hne, fun hfound => hne (hfound.created_eq_nil buildLines_sample)⟩

end CommonDataLayer
