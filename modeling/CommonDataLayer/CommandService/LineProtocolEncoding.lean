import Mathlib.Algebra.Order.BigOperators.Group.List
import Mathlib.Algebra.Order.Group.Nat
import CommonDataLayer.CommandService.VictoriaMetricsOutputPlugin
import CommonDataLayer.VictoriaMetrics.LineProtocol

/-! # The text sent to VictoriaMetrics

Strings are printed as JSON, so their quotes are escaped; names are printed as they are. Reading the
text by the line protocol gives the payload back exactly if all names are plain. The strings in it
are those of the payload if none of them has a control character, for which JSON has escapes that
the line protocol does not know.
-/
namespace CommonDataLayer.CommandService.VictoriaMetricsOutputPlugin
open Interaction VictoriaMetrics QuotedText
set_option autoImplicit false

/-! ## Texts of `serde_json` -/

/-- What follows the backslash in the escape of a control character. -/
def controlEscape : ℕ → List Char
  | 8 => ['b']
  | 9 => ['t']
  | 10 => ['n']
  | 12 => ['f']
  | 13 => ['r']
  | n => 'u' :: Uuid.hexDigits 4 n

def escapeChar (c : Char) : List Char :=
  if c = '"' ∨ c = '\\' then ['\\', c]
  else if c.toNat < 32 then '\\' :: controlEscape c.toNat
  else [c]

def jsonString (text : String) : String :=
  String.ofList ('"' :: text.toList.flatMap escapeChar ++ ['"'])

/-- How `serde_json` prints the values that are accepted. -/
structure PrintsScalars (json : Json) : Prop where
  string : ∀ text, json.display (.string text) = jsonString text
  bool : ∀ b, json.display (.bool b) = toString b
  number : ∀ n, ∀ c ∈ (json.display (.number n)).toList, c.isAlphanum ∨ c = '+' ∨ c = '-' ∨ c = '.'

theorem controlEscape_ne_nil (n : ℕ) : controlEscape n ≠ [] := by
  unfold controlEscape
  split <;> exact List.cons_ne_nil _ _

theorem mem_controlEscape {n : ℕ} (hn : n < 32) {c : Char} (hc : c ∈ controlEscape n) :
    c ≠ '"' ∧ c ≠ '\\' := by
  have hall : ∀ n < 32, (controlEscape n).all fun c => c ≠ '"' ∧ c ≠ '\\' := by decide
  exact of_decide_eq_true (List.all_eq_true.mp (hall n hn) c hc)

/-! ## The meaning of a payload -/

def fieldValue (json : Json) : Value → FieldValue
  | .string text => .string text
  | value => .literal (json.display value)

/-- The lines of a text are the entries of the payload, where `read` is applied to the text of a
value and `meaning` says what it stands for. -/
def Faithful {V : Type} (read : String → V) (meaning : Value → V) (measurement tag : Uuid)
    (payloads : List Payload) (text : String) : Prop :=
  ∃ lines, readLines text = some lines ∧ List.Forall₂ (fun obj line =>
    line.measurement = measurement.toText ∧ line.tags = [("objectId", tag.toText)] ∧
      line.ts = obj.ts ∧ (line.fields.map fun field => (field.1, read field.2)).Perm
        (obj.fields.map fun field => (field.1, meaning field.2))) payloads lines

def PlainNames (payloads : List Payload) : Prop :=
  ∀ obj ∈ payloads, ∀ field ∈ obj.fields, Plain field.1

def HasControl (text : String) : Prop := ∃ c ∈ text.toList, c.toNat < 32

def NoControls (payloads : List Payload) : Prop :=
  ∀ obj ∈ payloads, ∀ field ∈ obj.fields, ∀ text, field.2 = .string text → ¬ HasControl text

variable {json : Json} {measurement tag : Uuid} {payload : RawValue} {payloads : List Payload}
  {text : String} {value : Value}

/-! ## The lines that are written -/

def encodedLine (json : Json) (measurement tag : Uuid) (obj : Payload) : Line where
  measurement := measurement.toText
  tags := [("objectId", tag.toText)]
  fields := obj.fields.map fun field => (field.1, json.display field.2)
  ts := obj.ts

theorem mapM_eq_ok_map {ε α β : Type} {f : α → Except ε β} {g : α → β} {Ok : α → Prop}
    (hf : ∀ item result, f item = .ok result → Ok item ∧ result = g item) {items : List α}
    {results : List β} (h : items.mapM f = .ok results) :
    (∀ item ∈ items, Ok item) ∧ results = items.map g := by
  have hall := mapM_eq_ok_iff.mp h
  clear h
  induction hall with
  | nil => exact ⟨List.forall_mem_nil _, rfl⟩
  | cons hfirst _ ih =>
    obtain ⟨hok, rfl⟩ := hf _ _ hfirst
    exact ⟨List.forall_mem_cons.mpr ⟨hok, ih.1⟩, congrArg _ ih.2⟩

/-- Every field of an entry has a value that is printed. -/
def Accepted (obj : Payload) : Prop := obj.fields ≠ [] ∧ ∀ field ∈ obj.fields, isAllowed field.2

theorem buildLine_eq_ok {obj : Payload} {line : Line} (h : buildLine json measurement tag obj = .ok line) :
    Accepted obj ∧ line = encodedLine json measurement tag obj := by
  obtain ⟨fields, hfields, h⟩ := bind_eq_ok.mp h
  rw [← Except.ok.inj h]
  rw [getObjectFields] at hfields
  split at hfields
  · cases hfields
  · next hne =>
    have hfield : ∀ (field : String × Value) (printed : String × String),
        (if isAllowed field.2 then .ok (field.1, json.display field.2) else .error .invalidFieldType :
          Except Error (String × String)) = .ok printed →
        isAllowed field.2 ∧ printed = (field.1, json.display field.2) := by
      intro field printed hprinted
      split at hprinted
      · next hallowed => exact ⟨hallowed, (Except.ok.inj hprinted).symm⟩
      · cases hprinted
    obtain ⟨hallowed, rfl⟩ := mapM_eq_ok_map hfield hfields
    exact ⟨⟨by simpa using hne, hallowed⟩, rfl⟩

theorem buildLineProtocol_eq_ok (hpayloads : json.payloads payload.get = .ok payloads)
    (h : buildLineProtocol json measurement tag payload = .ok text) :
    (∀ obj ∈ payloads, Accepted obj) ∧ text =
      "\n".intercalate ((payloads.map (encodedLine json measurement tag)).map Line.toText) := by
  obtain ⟨lines, hlines, rfl⟩ := map_eq_ok.mp h
  rw [buildLines, hpayloads] at hlines
  obtain ⟨haccepted, rfl⟩ := mapM_eq_ok_map (fun _ _ => buildLine_eq_ok) hlines
  exact ⟨haccepted, rfl⟩

/-! ## Plain texts -/

theorem plain_toText (id : Uuid) : Plain id.toText := by
  refine neutral_of_forall fun c hc => ?_
  have hcase : c = '-' ∨ ∃ d < 16, c = Nat.digitChar d := by
    by_cases hhyphen : c = '-'
    · exact Or.inl hhyphen
    · have hdigit : c ∈ id.digits := by
        rw [← id.filter_toText]
        exact List.mem_filter.mpr ⟨hc, by simpa using hhyphen⟩
      exact Or.inr (Uuid.mem_hexDigits hdigit)
  have hdigits : ∀ d < 16, Nat.digitChar d ≠ quoting.quote ∧ ¬ IsSeparator (Nat.digitChar d) := by decide
  obtain rfl | ⟨d, hd, rfl⟩ := hcase
  · decide
  · exact hdigits d hd

theorem body_escapeChar (c : Char) : Body quoting (escapeChar c) := by
  unfold escapeChar
  split
  · exact body_escaped c (by decide)
  · next hplain =>
    split
    · next hcontrol =>
      obtain ⟨first, rest, hescape⟩ := List.exists_cons_of_ne_nil (controlEscape_ne_nil c.toNat)
      have hmem : ∀ d ∈ first :: rest, d ≠ '"' ∧ d ≠ '\\' := fun d hd =>
        mem_controlEscape hcontrol (by rw [hescape]; exact hd)
      rw [hescape]
      exact (body_escaped first (by decide)).append
        (body_of_forall fun d hd => hmem d (List.mem_cons_of_mem first hd))
    · refine body_of_forall fun d hd => ?_
      rw [List.mem_singleton.mp hd]
      exact not_or.mp hplain

theorem plain_display (hprints : PrintsScalars json) (hallowed : isAllowed value) :
    Plain (json.display value) := by
  cases value with
  | string content =>
    rw [hprints.string, Plain, jsonString, String.toList_ofList]
    exact (Body.flatMap fun c _ => body_escapeChar c).neutral (by decide)
  | bool b =>
    rw [hprints.bool]
    cases b <;> exact neutral_of_all (by decide)
  | number n =>
    refine neutral_of_forall fun c hc => ?_
    have hchar := hprints.number n c hc
    constructor
    · rintro rfl
      exact absurd hchar (by decide)
    · rintro (rfl | rfl | rfl | rfl) <;> exact absurd hchar (by decide)
  | _ => cases hallowed

theorem plain_encodedLine (hprints : PrintsScalars json) {obj : Payload} (haccepted : Accepted obj)
    (hnames : ∀ field ∈ obj.fields, Plain field.1) : (encodedLine json measurement tag obj).Plain where
  measurement := plain_toText measurement
  tags := by
    have hname : Plain "objectId" := neutral_of_all (by decide)
    exact List.forall_mem_singleton.mpr ⟨hname, plain_toText tag⟩
  fields := List.forall_mem_map.mpr fun field hfield =>
    ⟨hnames field hfield, plain_display hprints (haccepted.2 field hfield)⟩
  nonempty := by simpa [encodedLine] using haccepted.1

/-! ## What is read of a value -/

/-- What the line protocol reads where JSON has printed this character. -/
def shown (c : Char) : List Char :=
  if c.toNat < 32 then '\\' :: controlEscape c.toNat else [c]

theorem unescape_cons {c : Char} (hc : c ≠ '\\') (rest : List Char) :
    unescape (c :: rest) = c :: unescape rest := by
  cases rest <;> simp [unescape, hc]

theorem unescape_append {front : List Char} (h : ∀ c ∈ front, c ≠ '\\') (rest : List Char) :
    unescape (front ++ rest) = front ++ unescape rest := by
  induction front with
  | nil => rfl
  | cons c front ih =>
    rw [List.forall_mem_cons] at h
    rw [List.cons_append, unescape_cons h.1, ih h.2, List.cons_append]

theorem unescape_escapeChar (c : Char) (rest : List Char) :
    unescape (escapeChar c ++ rest) = shown c ++ unescape rest := by
  unfold escapeChar
  split
  · next hescaped =>
    have hshown : shown c = [c] := by obtain rfl | rfl := hescaped <;> decide
    simp [unescape, hescaped, hshown]
  · next hplain =>
    by_cases hcontrol : c.toNat < 32
    · obtain ⟨first, others, hescape⟩ := List.exists_cons_of_ne_nil (controlEscape_ne_nil c.toNat)
      have hmem : ∀ d ∈ first :: others, d ≠ '"' ∧ d ≠ '\\' := fun d hd =>
        mem_controlEscape hcontrol (by rw [hescape]; exact hd)
      have hfirst := hmem first List.mem_cons_self
      rw [if_pos hcontrol, shown, if_pos hcontrol, hescape]
      rw [List.cons_append, List.cons_append, unescape, if_neg (by simp [hfirst.1, hfirst.2]),
        ← List.cons_append, unescape_append (fun d hd => (hmem d hd).2)]
      rfl
    · rw [if_neg hcontrol, shown, if_neg hcontrol]
      exact unescape_cons (not_or.mp hplain).2 rest

theorem unescape_flatMap (text : List Char) : unescape (text.flatMap escapeChar) = text.flatMap shown := by
  induction text with
  | nil => rfl
  | cons c text ih => rw [List.flatMap_cons, unescape_escapeChar, ih, List.flatMap_cons]

theorem readValue_jsonString (text : String) :
    readValue (jsonString text) = .string (String.ofList (text.toList.flatMap shown)) := by
  simp [readValue, jsonString, unescape_flatMap]

theorem shown_of_le {c : Char} (h : 32 ≤ c.toNat) : shown c = [c] := if_neg (by omega)

theorem one_lt_length_shown {c : Char} (h : c.toNat < 32) : 1 < (shown c).length := by
  obtain ⟨first, others, hescape⟩ := List.exists_cons_of_ne_nil (controlEscape_ne_nil c.toNat)
  simp [shown, h, hescape]

/-- How much of a value is text of a string. -/
def weight : FieldValue → ℕ
  | .string content => content.toList.length
  | .literal _ => 0

theorem length_le_shown (text : List Char) : text.length ≤ (text.flatMap shown).length := by
  induction text with
  | nil => exact Nat.le_refl 0
  | cons c text ih =>
    have hlength : 1 ≤ (shown c).length := by
      by_cases hcontrol : c.toNat < 32
      · exact (one_lt_length_shown hcontrol).le
      · rw [shown_of_le (by omega)]
        exact Nat.le_refl 1
    rw [List.flatMap_cons, List.length_cons, List.length_append]
    omega

theorem length_lt_shown {text : List Char} (h : ∃ c ∈ text, c.toNat < 32) :
    text.length < (text.flatMap shown).length := by
  obtain ⟨c, hc, hcontrol⟩ := h
  obtain ⟨front, back, rfl⟩ := List.append_of_mem hc
  have hfront := length_le_shown front
  have hback := length_le_shown back
  have hlength := one_lt_length_shown hcontrol
  simp only [List.flatMap_append, List.flatMap_cons, List.length_append, List.length_cons]
  omega

theorem readValue_literal (h : text.toList.head? ≠ some '"') : readValue text = .literal text := by
  unfold readValue
  split
  · next heq => simp [heq] at h
  · rfl

theorem head_display (hprints : PrintsScalars json) (hallowed : isAllowed value)
    (hstring : ∀ content, value ≠ .string content) : (json.display value).toList.head? ≠ some '"' := by
  cases value with
  | string content => exact absurd rfl (hstring content)
  | bool b =>
    rw [hprints.bool]
    cases b <;> decide
  | number n =>
    intro hhead
    exact absurd (hprints.number n '"' (List.mem_of_head? hhead)) (by decide)
  | _ => cases hallowed

theorem readValue_display (hprints : PrintsScalars json) (hallowed : isAllowed value)
    (hcontrol : ∀ content, value = .string content → ¬ HasControl content) :
    readValue (json.display value) = fieldValue json value := by
  by_cases hstring : ∃ content, value = .string content
  · obtain ⟨content, rfl⟩ := hstring
    have hshown : content.toList.flatMap shown = content.toList := by
      have hall : ∀ c ∈ content.toList, shown c = [c] := fun c hc =>
        shown_of_le (by_contra fun hlt => hcontrol content rfl ⟨c, hc, by omega⟩)
      rw [List.flatMap_congr hall, List.flatMap_singleton']
    rw [hprints.string, readValue_jsonString, hshown, String.ofList_toList]
    rfl
  · rw [not_exists] at hstring
    rw [readValue_literal (head_display hprints hallowed hstring)]
    cases value with
    | string content => exact absurd rfl (hstring content)
    | _ => rfl

theorem weight_le (hprints : PrintsScalars json) (value : Value) :
    weight (fieldValue json value) ≤ weight (readValue (json.display value)) := by
  cases value with
  | string content =>
    have hlength := length_le_shown content.toList
    rw [hprints.string, readValue_jsonString]
    simpa [fieldValue, weight] using hlength
  | _ => exact Nat.zero_le _

theorem weight_lt (hprints : PrintsScalars json) {content : String} (hcontrol : HasControl content) :
    weight (fieldValue json (.string content)) <
      weight (readValue (json.display (.string content))) := by
  have hlength := length_lt_shown hcontrol
  rw [hprints.string, readValue_jsonString]
  simpa [fieldValue, weight] using hlength

/-! ## Faithfulness -/

section Faithfulness
variable {V : Type} {read : String → V} {meaning : Value → V}

/-- Names that are read are plain. -/
theorem Faithful.plainNames (h : Faithful read meaning measurement tag payloads text) :
    PlainNames payloads := by
  obtain ⟨lines, hread, hlines⟩ := h
  have hplain := plain_of_readLines hread
  clear hread
  induction hlines with
  | nil => exact List.forall_mem_nil _
  | @cons obj line payloads lines hline _ ih =>
    rw [List.forall_mem_cons] at hplain
    refine List.forall_mem_cons.mpr ⟨fun field hfield => ?_, ih hplain.2⟩
    have hmem : (field.1, meaning field.2) ∈ line.fields.map fun field => (field.1, read field.2) :=
      hline.2.2.2.mem_iff.mpr (List.mem_map_of_mem hfield)
    obtain ⟨written, hwritten, heq⟩ := List.mem_map.mp hmem
    have hname : written.1 = field.1 := (Prod.mk.inj heq).1
    exact hname ▸ hplain.1 written hwritten

/-- With plain names, the values decide. -/
theorem faithful_iff_of_plain (hprints : PrintsScalars json)
    (hpayloads : json.payloads payload.get = .ok payloads)
    (h : buildLineProtocol json measurement tag payload = .ok text) (hnames : PlainNames payloads) :
    Faithful read meaning measurement tag payloads text ↔ ∀ obj ∈ payloads,
      (obj.fields.map fun field => (field.1, read (json.display field.2))).Perm
        (obj.fields.map fun field => (field.1, meaning field.2)) := by
  obtain ⟨haccepted, rfl⟩ := buildLineProtocol_eq_ok hpayloads h
  have hplain : ∀ line ∈ payloads.map (encodedLine json measurement tag), line.Plain :=
    List.forall_mem_map.mpr fun obj hobj =>
      plain_encodedLine hprints (haccepted obj hobj) (hnames obj hobj)
  unfold Faithful
  rw [readLines_toText hplain]
  simp only [Option.some.injEq, exists_eq_left', List.forall₂_map_right_iff, List.forall₂_same,
    encodedLine, List.map_map, Function.comp_def, true_and]

end Faithfulness

/-- **The encoder is faithful exactly for plain names; and where the contents of strings are read as
well, if there are no control characters in them.** -/
theorem lineProtocol_faithful_iff (hprints : PrintsScalars json)
    (hpayloads : json.payloads payload.get = .ok payloads)
    (h : buildLineProtocol json measurement tag payload = .ok text) :
    (Faithful id json.display measurement tag payloads text ↔ PlainNames payloads) ∧
      (Faithful readValue (fieldValue json) measurement tag payloads text ↔
        PlainNames payloads ∧ NoControls payloads) := by
  obtain ⟨haccepted, -⟩ := buildLineProtocol_eq_ok hpayloads h
  constructor
  · refine ⟨fun hfaithful => hfaithful.plainNames, fun hnames => ?_⟩
    exact (faithful_iff_of_plain hprints hpayloads h hnames).mpr fun obj _ => List.Perm.refl _
  · constructor
    · intro hfaithful
      have hnames := hfaithful.plainNames
      refine ⟨hnames, fun obj hobj field hfield content hcontent hcontrol => ?_⟩
      have hperm := (faithful_iff_of_plain hprints hpayloads h hnames).mp hfaithful obj hobj
      have hsum := (hperm.map fun field => weight field.2).sum_eq
      simp only [List.map_map, Function.comp_def] at hsum
      refine absurd hsum (ne_of_gt (List.sum_lt_sum _ _ (fun other _ => weight_le hprints other.2) ?_))
      exact ⟨field, hfield, by rw [hcontent]; exact weight_lt hprints hcontrol⟩
    · rintro ⟨hnames, hcontrols⟩
      refine (faithful_iff_of_plain hprints hpayloads h hnames).mpr fun obj hobj => ?_
      have hsame : ∀ field ∈ obj.fields, (field.1, readValue (json.display field.2)) =
          (field.1, fieldValue json field.2) := fun field hfield => by
        rw [readValue_display hprints ((haccepted obj hobj).2 field hfield) (hcontrols obj hobj field hfield)]
      rw [List.map_congr_left hsame]

/-- Reads one text; prints no floats and no negative numbers. -/
def sampleSerde (payload : RawValue) (payloads : List Payload) : Json where
  payloads text := if text = payload.get then .ok payloads
    else .error "expected value at line 1 column 1"
  display
    | .string text => jsonString text
    | .bool b => toString b
    | .number (.posInt n) => toString n
    | _ => "0"

theorem printsScalars_sample (payload : RawValue) (payloads : List Payload) :
    PrintsScalars (sampleSerde payload payloads) where
  string _ := rfl
  bool _ := rfl
  number n := by
    cases n with
    | posInt n =>
      intro c hc
      have hdigit : c.isDigit :=
        Nat.isDigit_of_mem_toDigits (by omega) (by omega) (toList_timestamp n ▸ hc)
      exact Or.inl (by simp [Char.isAlphanum, hdigit])
    | _ =>
      have hzero : "0".toList.all fun c => c.isAlphanum ∨ c = '+' ∨ c = '-' ∨ c = '.' := by decide
      exact fun c hc => of_decide_eq_true (List.all_eq_true.mp hzero c hc)

/-- A string with separators and quotes. -/
theorem lineProtocol_faithful_quotes :
    let payload : RawValue := ⟨"[\x7b\"fields\":\x7b\"y01\":\"a=\\\"b, c\\\"\"\x7d,\"ts\":1\x7d]"⟩
    let payloads : List Payload := [⟨[("y01", .string "a=\"b, c\"")], 1⟩]
    let json := sampleSerde payload payloads
    ∃ text, buildLineProtocol json 0 0 payload = .ok text ∧
      Faithful id json.display 0 0 payloads text ∧
      Faithful readValue (fieldValue json) 0 0 payloads text := by
  intro payload payloads json
  have hpayloads : json.payloads payload.get = .ok payloads := by simp [json, sampleSerde]
  have hlines : buildLineProtocol json 0 0 payload =
      .ok ("\n".intercalate ((payloads.map (encodedLine json 0 0)).map Line.toText)) := by
    rw [buildLineProtocol, buildLines, hpayloads]
    rfl
  obtain ⟨hwritten, hmeant⟩ :=
    lineProtocol_faithful_iff (printsScalars_sample payload payloads) hpayloads hlines
  have hnames : PlainNames payloads := by
    have hname : Plain "y01" := neutral_of_all (by decide)
    simpa [PlainNames, payloads] using hname
  have hcontrols : NoControls payloads := by
    have hcontent : ¬ HasControl "a=\"b, c\"" := by
      have hall : "a=\"b, c\"".toList.all fun c => ¬ c.toNat < 32 := by decide
      rintro ⟨c, hc, hcontrol⟩
      exact of_decide_eq_true (List.all_eq_true.mp hall c hc) hcontrol
    simpa [NoControls, payloads] using hcontent
  exact ⟨_, hlines, hwritten.mpr hnames, hmeant.mpr ⟨hnames, hcontrols⟩⟩

/-- A comma in a name. -/
theorem not_faithful_comma : ¬ ∀ (json : Json) (measurement tag : Uuid) (payload : RawValue)
    (payloads : List Payload) (text : String), PrintsScalars json →
    json.payloads payload.get = .ok payloads →
    buildLineProtocol json measurement tag payload = .ok text →
    Faithful id json.display measurement tag payloads text := by
  intro h
  let payload : RawValue := ⟨"[\x7b\"fields\":\x7b\"a,b\":1\x7d,\"ts\":1\x7d]"⟩
  let payloads : List Payload := [⟨[("a,b", .number (.posInt 1))], 1⟩]
  have hpayloads : (sampleSerde payload payloads).payloads payload.get = .ok payloads := by
    simp [sampleSerde]
  have hlines : buildLineProtocol (sampleSerde payload payloads) 0 0 payload = .ok
      ("\n".intercalate ((payloads.map (encodedLine (sampleSerde payload payloads) 0 0)).map
        Line.toText)) := by
    rw [buildLineProtocol, buildLines, hpayloads]
    rfl
  have hfaithful := h _ 0 0 payload payloads _ (printsScalars_sample payload payloads) hpayloads hlines
  have hplain := hfaithful.plainNames _ (List.mem_singleton_self _) _ (List.mem_singleton_self _)
  exact absurd hplain.clear (by decide)

end CommonDataLayer.CommandService.VictoriaMetricsOutputPlugin
