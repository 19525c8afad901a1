import CommonDataLayer.Foundations.QuotedText
import CommonDataLayer.VictoriaMetrics.Series
import Std.Data.String.ToNat

/-! # Reading the line protocol

Records are separated by newlines. A record consists of the measurement with its tags, the fields
and the time stamp, separated by spaces; tags and fields are separated by commas, and split at `=`.
Separators inside quoted strings do not count.

* `readLines_toText`: lines of plain parts are read as they were written.
* `plain_of_readLines`: whatever is read, the names of its fields are plain.
-/
namespace CommonDataLayer.VictoriaMetrics
open QuotedText
set_option autoImplicit false

def quoting : Quoting Char := { quote := '"', escape := '\\' }

def IsSeparator (c : Char) : Prop := c = '\n' ∨ c = ' ' ∨ c = ',' ∨ c = '='

instance : DecidablePred IsSeparator := fun c =>
  inferInstanceAs (Decidable (c = '\n' ∨ c = ' ' ∨ c = ',' ∨ c = '='))

/-- No separator outside of quotes, and no quote left open. -/
def Plain (text : String) : Prop := Neutral quoting IsSeparator text.toList

def parts (sep : Char) (text : List Char) : List (List Char) := split quoting sep .plain text

def readAssignment (text : List Char) : Option (String × String) :=
  match parts '=' text with
  | [name, value] => some (String.ofList name, String.ofList value)
  | _ => none

def readTimestamp (text : List Char) : Option UInt64 := do
  let n ← (String.ofList text).toNat?
  if n < 2 ^ 64 then some (UInt64.ofNat n) else none

def readLine (text : List Char) : Option Line :=
  match parts ' ' text with
  | [key, fields, ts] =>
    match parts ',' key with
    | [] => none
    | measurement :: tags => do
      let tags ← tags.mapM readAssignment
      let fields ← (parts ',' fields).mapM readAssignment
      let ts ← readTimestamp ts
      return { measurement := String.ofList measurement, tags := tags, fields := fields, ts := ts }
  | _ => none

/-- The lines of a request; an empty record is none. -/
def readLines (text : String) : Option (List Line) :=
  ((parts '\n' text.toList).filter (· ≠ [])).mapM readLine

inductive FieldValue where
  | string (content : String)
  | literal (text : String)
  deriving DecidableEq

/-- In a quoted string only quotes and backslashes are escaped. -/
def unescape : List Char → List Char
  | [] => []
  | [c] => [c]
  | c :: d :: text =>
    if c = '\\' ∧ (d = '"' ∨ d = '\\') then d :: unescape text else c :: unescape (d :: text)

def readValue (text : String) : FieldValue :=
  match text.toList with
  | '"' :: content => .string (String.ofList (unescape content.dropLast))
  | _ => .literal text

/-! ## Reading what was written -/

section Written
variable {α β : Type}

theorem mapM_eq_some {f : α → Option β} {encode : β → α} {items : List β}
    (h : ∀ item ∈ items, f (encode item) = some item) : (items.map encode).mapM f = some items := by
  induction items with
  | nil => rfl
  | cons item items ih =>
    rw [List.forall_mem_cons] at h
    rw [List.map_cons, List.mapM_cons, h.1, ih h.2]
    rfl

theorem intercalate_eq_flatMap (sep : α) (first : List α) (others : List (List α)) :
    [sep].intercalate (first :: others) = first ++ others.flatMap (sep :: ·) := by
  induction others generalizing first with
  | nil => simp
  | cons next others ih => rw [List.intercalate_cons_cons, ih]; simp

end Written

variable {pair : String × String} {line : Line} {p : Char → Prop}

/-- A separator is plain where it does not count. -/
theorem neutral_separator {sep : Char} (hsep : IsSeparator sep) (hp : ¬ p sep) :
    Neutral quoting p [sep] := by
  refine neutral_of_forall fun c hc => ?_
  rw [List.mem_singleton.mp hc]
  refine ⟨?_, hp⟩
  obtain rfl | rfl | rfl | rfl := hsep <;> decide

theorem neutral_assignment (hname : Plain pair.1) (hvalue : Plain pair.2)
    (hp : ∀ c, p c → IsSeparator c) (hne : ¬ p '=') : Neutral quoting p (assignment pair).toList := by
  have hsep : Neutral quoting p ['='] := neutral_separator (by decide) hne
  have htext : (assignment pair).toList = pair.1.toList ++ ['='] ++ pair.2.toList := by
    simp [assignment]
  rw [htext]
  exact ((hname.mono hp).append hsep).append (hvalue.mono hp)

theorem readAssignment_assignment (hname : Plain pair.1) (hvalue : Plain pair.2) :
    readAssignment (assignment pair).toList = some pair := by
  have hequals : ∀ c, c = '=' → IsSeparator c := fun c hc => Or.inr (Or.inr (Or.inr hc))
  have htext : (assignment pair).toList = ['='].intercalate [pair.1.toList, pair.2.toList] := by
    simp [assignment]
  have hparts : parts '=' (assignment pair).toList = [pair.1.toList, pair.2.toList] := by
    rw [parts, htext]
    refine split_intercalate (by simp) fun part hpart => ?_
    simp only [List.mem_cons, List.not_mem_nil, or_false] at hpart
    obtain rfl | rfl := hpart
    · exact hname.mono hequals
    · exact hvalue.mono hequals
  simp [readAssignment, hparts]

/-- A line of plain parts. -/
structure Line.Plain (line : Line) : Prop where
  measurement : VictoriaMetrics.Plain line.measurement
  tags : ∀ tag ∈ line.tags, VictoriaMetrics.Plain tag.1 ∧ VictoriaMetrics.Plain tag.2
  fields : ∀ field ∈ line.fields, VictoriaMetrics.Plain field.1 ∧ VictoriaMetrics.Plain field.2
  nonempty : line.fields ≠ []

def Line.key (line : Line) : List Char :=
  [','].intercalate (line.measurement.toList :: line.tags.map fun tag => (assignment tag).toList)

def Line.fieldSet (line : Line) : List Char :=
  [','].intercalate (line.fields.map fun field => (assignment field).toList)

theorem toList_toText (line : Line) :
    line.toText.toList = [' '].intercalate [line.key, line.fieldSet, (toString line.ts).toList] := by
  have hkey : line.key = line.measurement.toList ++
      (line.tags.map fun tag => "," ++ assignment tag).flatMap String.toList := by
    rw [Line.key, intercalate_eq_flatMap, List.flatMap_map, List.flatMap_map]
    simp
  rw [hkey, Line.fieldSet, Line.toText]
  simp [Function.comp_def]

theorem toList_timestamp (ts : UInt64) : (toString ts).toList = Nat.toDigits 10 ts.toNat :=
  Nat.toList_repr

theorem plain_timestamp (ts : UInt64) : Plain (toString ts) := by
  refine neutral_of_forall fun c hc => ?_
  rw [toList_timestamp] at hc
  have hdigit : c.isDigit := Nat.isDigit_of_mem_toDigits (by omega) (by omega) hc
  constructor
  · rintro rfl
    exact absurd hdigit (by decide)
  · rintro (rfl | rfl | rfl | rfl) <;> exact absurd hdigit (by decide)

theorem readTimestamp_toString (ts : UInt64) : readTimestamp (toString ts).toList = some ts := by
  have hrepr : (toString ts).toNat? = some ts.toNat := Nat.toNat?_repr ts.toNat
  have hlt : ts.toNat < 2 ^ 64 := ts.toNat_lt
  rw [readTimestamp, String.ofList_toList, hrepr, Option.bind_eq_bind, Option.bind_some, if_pos hlt,
    UInt64.ofNat_toNat]

theorem Line.Plain.neutral_key (h : line.Plain) (hp : ∀ c, p c → IsSeparator c) (hcomma : ¬ p ',')
    (hequals : ¬ p '=') : Neutral quoting p line.key := by
  refine Neutral.intercalate (neutral_separator (by decide) hcomma) ?_
  rw [List.forall_mem_cons, List.forall_mem_map]
  exact ⟨h.measurement.mono hp, fun tag htag =>
    neutral_assignment (h.tags tag htag).1 (h.tags tag htag).2 hp hequals⟩

theorem Line.Plain.neutral_fieldSet (h : line.Plain) (hp : ∀ c, p c → IsSeparator c)
    (hcomma : ¬ p ',') (hequals : ¬ p '=') : Neutral quoting p line.fieldSet := by
  refine Neutral.intercalate (neutral_separator (by decide) hcomma) ?_
  rw [List.forall_mem_map]
  exact fun field hfield =>
    neutral_assignment (h.fields field hfield).1 (h.fields field hfield).2 hp hequals

theorem Line.Plain.parts_key (h : line.Plain) : parts ',' line.key =
    line.measurement.toList :: line.tags.map fun tag => (assignment tag).toList := by
  have hcomma : ∀ c, c = ',' → IsSeparator c := fun c hc => Or.inr (Or.inr (Or.inl hc))
  refine split_intercalate (List.cons_ne_nil _ _) ?_
  rw [List.forall_mem_cons, List.forall_mem_map]
  exact ⟨h.measurement.mono hcomma, fun tag htag =>
    neutral_assignment (h.tags tag htag).1 (h.tags tag htag).2 hcomma (by decide)⟩

theorem Line.Plain.parts_fieldSet (h : line.Plain) :
    parts ',' line.fieldSet = line.fields.map fun field => (assignment field).toList := by
  have hcomma : ∀ c, c = ',' → IsSeparator c := fun c hc => Or.inr (Or.inr (Or.inl hc))
  refine split_intercalate (by simpa using h.nonempty) ?_
  rw [List.forall_mem_map]
  exact fun field hfield =>
    neutral_assignment (h.fields field hfield).1 (h.fields field hfield).2 hcomma (by decide)

theorem readLine_toText (h : line.Plain) : readLine line.toText.toList = some line := by
  have hspace : ∀ c, c = ' ' → IsSeparator c := fun c hc => Or.inr (Or.inl hc)
  have hparts : parts ' ' line.toText.toList =
      [line.key, line.fieldSet, (toString line.ts).toList] := by
    rw [parts, toList_toText]
    refine split_intercalate (List.cons_ne_nil _ _) fun part hpart => ?_
    simp only [List.mem_cons, List.not_mem_nil, or_false] at hpart
    obtain rfl | rfl | rfl := hpart
    · exact h.neutral_key hspace (by decide) (by decide)
    · exact h.neutral_fieldSet hspace (by decide) (by decide)
    · exact (plain_timestamp line.ts).mono hspace
  have htags : (line.tags.map fun tag => (assignment tag).toList).mapM readAssignment = some line.tags :=
    mapM_eq_some fun tag htag => readAssignment_assignment (h.tags tag htag).1 (h.tags tag htag).2
  have hfields : (line.fields.map fun field => (assignment field).toList).mapM readAssignment =
      some line.fields := mapM_eq_some fun field hfield =>
    readAssignment_assignment (h.fields field hfield).1 (h.fields field hfield).2
  simp [readLine, hparts, h.parts_key, h.parts_fieldSet, htags, hfields, readTimestamp_toString]

theorem Line.Plain.neutral_toText (h : line.Plain) : Neutral quoting (· = '\n') line.toText.toList := by
  have hnewline : ∀ c, c = '\n' → IsSeparator c := fun c hc => Or.inl hc
  rw [toList_toText]
  refine Neutral.intercalate (neutral_separator (by decide) (by decide)) fun part hpart => ?_
  simp only [List.mem_cons, List.not_mem_nil, or_false] at hpart
  obtain rfl | rfl | rfl := hpart
  · exact h.neutral_key hnewline (by decide) (by decide)
  · exact h.neutral_fieldSet hnewline (by decide) (by decide)
  · exact (plain_timestamp line.ts).mono hnewline

theorem toText_ne_nil (line : Line) : line.toText.toList ≠ [] := by
  rw [toList_toText]
  simp

/-- Lines of plain parts are read as they were written. -/
theorem readLines_toText {lines : List Line} (h : ∀ line ∈ lines, line.Plain) :
    readLines ("\n".intercalate (lines.map Line.toText)) = some lines := by
  have htext : ("\n".intercalate (lines.map Line.toText)).toList =
      ['\n'].intercalate (lines.map fun line => line.toText.toList) := by
    simp [Function.comp_def]
  have hrecords : (parts '\n' ("\n".intercalate (lines.map Line.toText)).toList).filter (· ≠ []) =
      lines.map fun line => line.toText.toList := by
    rw [parts, htext]
    by_cases hlines : lines = []
    · rw [hlines]
      rfl
    · rw [split_intercalate (by simpa using hlines)
        (List.forall_mem_map.mpr fun line hline => (h line hline).neutral_toText)]
      exact List.filter_eq_self.mpr (List.forall_mem_map.mpr fun line _ => by
        simpa using toText_ne_nil line)
  rw [readLines, hrecords]
  exact mapM_eq_some fun line hline => readLine_toText (h line hline)

/-! ## What can be read -/

theorem exists_of_mapM {α β : Type} {f : α → Option β} {items : List α} {results : List β}
    (h : items.mapM f = some results) : ∀ result ∈ results, ∃ item ∈ items, f item = some result := by
  induction items generalizing results with
  | nil =>
    cases h
    exact List.forall_mem_nil _
  | cons item items ih =>
    rw [List.mapM_cons] at h
    obtain ⟨first, hfirst, h⟩ := Option.bind_eq_some_iff.mp h
    obtain ⟨rest, hrest, h⟩ := Option.bind_eq_some_iff.mp h
    cases h
    refine List.forall_mem_cons.mpr ⟨⟨item, List.mem_cons_self, hfirst⟩, fun result hresult => ?_⟩
    obtain ⟨other, hother, heq⟩ := ih hrest result hresult
    exact ⟨other, List.mem_cons_of_mem item hother, heq⟩

/-- The name of a field is the closed first part of a text without other separators. -/
theorem plain_of_readAssignment {text : List Char}
    (hclear : Clear quoting (fun c => c = '\n' ∨ c = ' ' ∨ c = ',') .plain text)
    (h : readAssignment text = some pair) : Plain pair.1 := by
  unfold readAssignment at h
  split at h
  · next name value hparts =>
    cases h
    obtain ⟨hname, hclosed, -⟩ := hclear.split (by decide) hparts
    rw [Plain, String.toList_ofList]
    refine ⟨hname.mono fun c hc => ?_, hclosed (List.cons_ne_nil _ _)⟩
    obtain hc | hc | hc | hc := hc
    · exact Or.inl (Or.inl hc)
    · exact Or.inl (Or.inr (Or.inl hc))
    · exact Or.inl (Or.inr (Or.inr hc))
    · exact Or.inr hc
  · cases h

theorem plain_of_readLine {text : List Char} (hclear : Clear quoting (· = '\n') .plain text)
    (h : readLine text = some line) : ∀ field ∈ line.fields, Plain field.1 := by
  unfold readLine at h
  split at h
  · next key fields ts hparts =>
    split at h
    · cases h
    · obtain ⟨tags', -, h⟩ := Option.bind_eq_some_iff.mp h
      obtain ⟨fields', hfields, h⟩ := Option.bind_eq_some_iff.mp h
      obtain ⟨ts', -, h⟩ := Option.bind_eq_some_iff.mp h
      cases h
      have hmem : fields ∈ parts ' ' text := by simp [hparts]
      have hfieldsClear := hclear.of_mem_split (by decide) hmem
      intro field hfield
      obtain ⟨part, hpart, hread⟩ := exists_of_mapM hfields field hfield
      have hpartClear := hfieldsClear.of_mem_split (by decide) hpart
      refine plain_of_readAssignment (hpartClear.mono fun c hc => ?_) hread
      obtain hc | hc | hc := hc
      · exact Or.inl (Or.inl hc)
      · exact Or.inl (Or.inr hc)
      · exact Or.inr hc
  · cases h

/-- **Whatever is read, its field names are plain.** -/
theorem plain_of_readLines {text : String} {lines : List Line} (h : readLines text = some lines) :
    ∀ line ∈ lines, ∀ field ∈ line.fields, Plain field.1 := by
  intro line hline
  obtain ⟨record, hrecord, hread⟩ := exists_of_mapM h line hline
  have hmem : record ∈ parts '\n' text.toList := List.mem_of_mem_filter hrecord
  have hclear := clear_false.of_mem_split (q := quoting) (by decide) hmem
  exact plain_of_readLine (hclear.mono fun c hc => Or.inr hc) hread

end CommonDataLayer.VictoriaMetrics
