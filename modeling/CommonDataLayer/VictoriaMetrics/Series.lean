import CommonDataLayer.Wire.UuidText

/-! # Time series

What VictoriaMetrics makes of a line: for every field a series that is named after the measurement
and the field and has the tags of the line as labels, next to the label `db` of the request. Two
kinds of selectors are used: a label with a value, and names that start with a schema.
-/
namespace CommonDataLayer.VictoriaMetrics
set_option autoImplicit false

/-- A line of the line protocol. -/
structure Line where
  measurement : String
  tags : List (String × String)
  fields : List (String × String)
  ts : UInt64

/-- `a=b`. -/
def assignment (pair : String × String) : String := pair.1 ++ "=" ++ pair.2

def Line.toText (line : Line) : String :=
  line.measurement ++ String.join (line.tags.map fun tag => "," ++ assignment tag) ++ " " ++
    ",".intercalate (line.fields.map assignment) ++ " " ++ toString line.ts

structure Series where
  name : String
  labels : List (String × String)

/-- A label that is not there has the empty value. -/
def Series.label (series : Series) (name : String) : String := (series.labels.lookup name).getD ""

def Line.series (db : String) (line : Line) : List Series :=
  line.fields.map fun field =>
    { name := line.measurement ++ "_" ++ field.1, labels := ("db", db) :: line.tags }

inductive Selector where
  | label (name value : String)
  /-- The names that match `<prefix>_.*`. -/
  | names (start : String)

def Selector.toText : Selector → String
  | label name value => "\x7b" ++ name ++ "=\"" ++ value ++ "\"\x7d"
  | names start => "\x7b__name__=~\"" ++ start ++ "_.*\"\x7d"

def Selector.Matches : Selector → Series → Prop
  | label name value, series => series.label name = value
  | names start, series => (start ++ "_").toList <+: series.name.toList

/-! ## Names of schemas -/

/-- The names that start with a schema are those of its measurement. -/
theorem matches_names {schemaId other : Uuid} {field : String} {labels : List (String × String)} :
    (Selector.names schemaId.toText).Matches ⟨other.toText ++ "_" ++ field, labels⟩ ↔
      other = schemaId := by
  rw [Selector.Matches, String.toList_append, String.toList_append, String.toList_append]
  constructor
  · rintro ⟨rest, hrest⟩
    rw [List.append_assoc, List.append_assoc] at hrest
    have hlength : schemaId.toText.toList.length = other.toText.toList.length := by
      rw [Uuid.length_toText, Uuid.length_toText]
    exact Uuid.toText_injective (String.toList_inj.mp (List.append_inj hrest hlength).1.symm)
  · rintro rfl
    exact List.prefix_append _ _

end CommonDataLayer.VictoriaMetrics
