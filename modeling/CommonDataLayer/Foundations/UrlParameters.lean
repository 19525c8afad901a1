import CommonDataLayer.Foundations.UrlEncoding

/-! # Parameters in the fragment of a URL

A page writes `#path?name=value&…` into its address, with the values as they are, and reads the part
between the question marks of `location.hash` back with `URLSearchParams`.

* `searchParams`: the parser of `URLSearchParams`.
* `readParams`: the parameters that are found in the address.
* `Survives`: the lists that come back. All values are plain, and the last one does not end in a
  blank. `readParams_queryText`, `readParams_iff`: these and no others.
-/
namespace UrlParameters
open Unicode UrlEncoding
set_option autoImplicit false

def parsePair (bytes : List UInt8) : List Char × List Char :=
  (decodePart (bytes.takeWhile (· ≠ 0x3D)), decodePart ((bytes.dropWhile (· ≠ 0x3D)).drop 1))

def parseForm (bytes : List UInt8) : List (List Char × List Char) :=
  ((bytes.splitOn 0x26).filter (!·.isEmpty)).map parsePair

/-- `new URLSearchParams(init)`. -/
def searchParams (init : List Char) : List (List Char × List Char) :=
  parseForm (utf8 (match init with
    | '?' :: text => text
    | text => text))

/-- The parameters that a page finds after it has written `query` behind a question mark. -/
def readParams (query : List Char) : List (List Char × List Char) :=
  searchParams ((percentEncode (sent query)).takeWhile (· ≠ '?'))

/-- The parameters, joined as they are. -/
def queryText (params : List (List Char × List Char)) : List Char :=
  ['&'].intercalate (params.map fun p => p.1 ++ '=' :: p.2)

/-! ## Separators among escaped characters -/

variable {c sep : Char} {text value query : List Char}

/-- A separator stands only for itself. -/
theorem eq_of_mem_percentEncodeChar (hpercent : sep ≠ '%') (hhex : isHexDigit sep = false)
    (h : sep ∈ percentEncodeChar c) : c = sep := by
  obtain ⟨-, rfl⟩ | ⟨-, rfl | ⟨n, hn, rfl⟩⟩ := mem_percentEncodeChar h
  · rfl
  · exact absurd rfl hpercent
  · rw [isHexDigit, hexValue_hexDigit hn] at hhex
    cases hhex

theorem ascii_of_mem_percentEncodeChar {a : Char} (h : a ∈ percentEncodeChar c) : a.toNat < 0x80 := by
  obtain ⟨hset, rfl⟩ | ⟨-, rfl | ⟨n, hn, rfl⟩⟩ := mem_percentEncodeChar h
  · have hbounds := bounds_of_not_inFragmentSet hset
    omega
  · decide
  · rw [hexDigit_toNat hn]
    split <;> omega

theorem eq_of_mem_encodedBytes (hascii : sep.toNat < 0x80) (hpercent : sep ≠ '%')
    (hhex : isHexDigit sep = false) (h : UInt8.ofNat sep.toNat ∈ encodedBytes c) : c = sep := by
  rw [encodedBytes, utf8_of_ascii fun a ha => ascii_of_mem_percentEncodeChar ha] at h
  obtain ⟨a, ha, hbyte⟩ := List.mem_map.mp h
  have hsep : a = sep := by
    by_contra hne
    exact byte_ne (ascii_of_mem_percentEncodeChar ha) hascii hne hbyte
  exact eq_of_mem_percentEncodeChar hpercent hhex (hsep ▸ ha)

theorem forall_ne {α : Type} [DecidableEq α] {l : List α} {x : α} (h : x ∉ l) :
    ∀ y ∈ l, decide (y ≠ x) = true := by
  intro y hy
  rw [decide_eq_true_iff]
  rintro rfl
  exact h hy

theorem splitOn_of_not_mem {α : Type} [DecidableEq α] {l : List α} {x : α} (h : x ∉ l) :
    l.splitOn x = [l] :=
  List.splitOnP_eq_singleton fun y hy => beq_eq_false_iff_ne.mpr (of_decide_eq_true (forall_ne h y hy))

/-- The part between the first separator and the second. -/
theorem splitOn_second {α : Type} [DecidableEq α] {x : α} {front : List α} (h : x ∉ front)
    (back : List α) : ((front ++ x :: back).splitOn x)[1]? = some (back.takeWhile (· ≠ x)) := by
  rw [List.splitOn_append_cons_self_of_not_mem h, List.getElem?_cons_succ]
  by_cases hmem : x ∈ back
  · obtain ⟨part, rest, rfl, hpart⟩ := List.eq_append_cons_of_mem hmem
    rw [List.splitOn_append_cons_self_of_not_mem hpart, List.getElem?_cons_zero,
      List.takeWhile_append_of_pos (forall_ne hpart), List.takeWhile_cons_of_neg (by simp),
      List.append_nil]
  · rw [splitOn_of_not_mem hmem, List.getElem?_cons_zero,
      List.takeWhile_eq_self_iff.mpr (forall_ne hmem)]

theorem takeWhile_flatMap {α β : Type} [DecidableEq α] [DecidableEq β] {f : α → List β} {a : α} {b : β}
    (hself : f a = [b]) (hother : ∀ x, b ∈ f x → x = a) (l : List α) :
    (l.flatMap f).takeWhile (· ≠ b) = (l.takeWhile (· ≠ a)).flatMap f := by
  induction l with
  | nil => rfl
  | cons x l ih =>
    by_cases hx : x = a
    · subst hx
      rw [List.flatMap_cons, hself, List.singleton_append, List.takeWhile_cons_of_neg (by simp),
        List.takeWhile_cons_of_neg (by simp)]
      rfl
    · have hbytes : b ∉ f x := fun hb => hx (hother x hb)
      rw [List.flatMap_cons, List.takeWhile_append_of_pos (forall_ne hbytes), ih,
        List.takeWhile_cons_of_pos (by simpa using hx), List.flatMap_cons]

theorem takeWhile_percentEncode (text : List Char) :
    (percentEncode text).takeWhile (· ≠ '?') = percentEncode (text.takeWhile (· ≠ '?')) :=
  takeWhile_flatMap (by decide) (fun _ => eq_of_mem_percentEncodeChar (by decide) (by decide)) text

theorem eq_ampersand_of_mem (h : 0x26 ∈ encodedBytes c) : c = '&' :=
  eq_of_mem_encodedBytes (by decide) (by decide) (by decide) h

theorem eq_equals_of_mem (h : 0x3D ∈ encodedBytes c) : c = '=' :=
  eq_of_mem_encodedBytes (by decide) (by decide) (by decide) h

theorem takeWhile_encodedBytes (text : List Char) :
    (text.flatMap encodedBytes).takeWhile (· ≠ 0x26) =
      (text.takeWhile (· ≠ '&')).flatMap encodedBytes :=
  takeWhile_flatMap (by decide) (fun _ => eq_ampersand_of_mem) text

theorem searchParams_of_not_mem (h : '?' ∉ text) : searchParams text = parseForm (utf8 text) := by
  unfold searchParams
  split
  · exact absurd List.mem_cons_self h
  · rfl

theorem readParams_eq (query : List Char) : readParams query =
    parseForm (((sent query).takeWhile (· ≠ '?')).flatMap encodedBytes) := by
  have hquestion : '?' ∉ (percentEncode (sent query)).takeWhile (· ≠ '?') := fun h => by
    simpa using List.mem_takeWhile_imp h
  rw [readParams, searchParams_of_not_mem hquestion, takeWhile_percentEncode, utf8_percentEncode]

/-! ## The first parameter -/

def isNameChar (c : Char) : Bool :=
  !(inFragmentSet c || ['&', '=', '+', '?', '%'].contains c)

/-- A name that is written as it is and means nothing else. -/
def IsName (name : List Char) : Prop := ∀ c ∈ name, isNameChar c

instance (name : List Char) : Decidable (IsName name) :=
  decidable_of_iff (name.all isNameChar = true) List.all_eq_true

variable {name : List Char}

theorem isNameChar_iff : isNameChar c ↔
    inFragmentSet c = false ∧ c ≠ '&' ∧ c ≠ '=' ∧ c ≠ '+' ∧ c ≠ '?' ∧ c ≠ '%' := by
  simp [isNameChar]

theorem isTabOrNewline_of_not_inFragmentSet (h : inFragmentSet c = false) :
    isTabOrNewline c = false := by
  have hbounds := bounds_of_not_inFragmentSet h
  simp only [isTabOrNewline, Bool.or_eq_false_iff, decide_eq_false_iff_not]
  omega

/-- A name is a plain value, too. -/
theorem plain_name (h : IsName name) : Plain name := by
  constructor
  · intro c hc
    obtain ⟨hset, hampersand, -, hplus, hquestion, -⟩ := isNameChar_iff.mp (h c hc)
    exact ⟨hampersand, hquestion, hplus, isTabOrNewline_of_not_inFragmentSet hset⟩
  · rintro ⟨a, b, -, -, hpart⟩
    exact absurd (h '%' (hpart.subset List.mem_cons_self)) (by decide)

theorem readBack_name (h : IsName name) : readBack name = name := (plain_iff.mp (plain_name h)).2

theorem filter_plain (h : Plain value) : value.filter (!isTabOrNewline ·) = value :=
  List.filter_eq_self.mpr fun c hc => by rw [(h.separators c hc).2.2.2]; rfl

theorem takeWhile_plain (h : Plain value) : ∀ c ∈ value, decide (c ≠ '?') = true :=
  fun c hc => decide_eq_true (h.separators c hc).2.1

theorem rdropWhile_append_cons {α : Type} {p : α → Bool} {x : α} (h : p x = false)
    (front back : List α) :
    (front ++ x :: back).rdropWhile p = front ++ x :: back.rdropWhile p := by
  induction back using List.reverseRecOn with
  | nil => exact List.rdropWhile_concat_neg p front x (by simp [h])
  | append_singleton back y ih =>
    rw [← List.cons_append, ← List.append_assoc]
    cases hy : p y with
    | true => rw [List.rdropWhile_concat_pos p _ y hy, List.rdropWhile_concat_pos p _ y hy, ih]
    | false =>
      have hnot : ¬ p y = true := by simp [hy]
      rw [List.rdropWhile_concat_neg p _ y hnot, List.rdropWhile_concat_neg p _ y hnot,
        List.append_assoc, List.cons_append]

theorem sent_append_cons (hblank : isBlank sep = false) (text query : List Char) :
    sent (text ++ sep :: query) = text.filter (!isTabOrNewline ·) ++ sep :: sent query := by
  have hkept : (!isTabOrNewline sep) = true := by
    simp only [isBlank, decide_eq_false_iff_not] at hblank
    simp only [isTabOrNewline, Bool.not_eq_true', Bool.or_eq_false_iff, decide_eq_false_iff_not]
    omega
  rw [sent, rdropWhile_append_cons hblank, List.filter_append, List.filter_cons, if_pos hkept]
  rfl

theorem takeWhile_append_cons {α : Type} {p : α → Bool} {front : List α} {x : α}
    (hfront : ∀ y ∈ front, p y) (hx : p x) (back : List α) :
    (front ++ x :: back).takeWhile p = front ++ x :: back.takeWhile p := by
  rw [List.takeWhile_append_of_pos hfront, List.takeWhile_cons_of_pos hx]

theorem parseForm_cons {front : List UInt8} (hfront : 0x26 ∉ front) (hne : front ≠ [])
    (back : List UInt8) : parseForm (front ++ 0x26 :: back) = parsePair front :: parseForm back := by
  have hkept : (!front.isEmpty) = true := by simpa using hne
  rw [parseForm, List.splitOn_append_cons_self_of_not_mem hfront, List.filter_cons, if_pos hkept]
  rfl

theorem parseForm_single {bytes : List UInt8} (h : 0x26 ∉ bytes) (hne : bytes ≠ []) :
    parseForm bytes = [parsePair bytes] := by
  have hkept : (!bytes.isEmpty) = true := by simpa using hne
  rw [parseForm, splitOn_of_not_mem h, List.filter_cons, if_pos hkept]
  rfl

/-- The first parameter stands in front of the first ampersand. -/
theorem parseForm_head {bytes : List UInt8} (hne : bytes.takeWhile (· ≠ 0x26) ≠ []) :
    ∃ more, parseForm bytes = parsePair (bytes.takeWhile (· ≠ 0x26)) :: more := by
  by_cases hmem : 0x26 ∈ bytes
  · obtain ⟨front, back, rfl, hfront⟩ := List.eq_append_cons_of_mem hmem
    rw [List.takeWhile_append_of_pos (forall_ne hfront), List.takeWhile_cons_of_neg (by simp),
      List.append_nil] at hne ⊢
    exact ⟨_, parseForm_cons hfront hne back⟩
  · rw [List.takeWhile_eq_self_iff.mpr (forall_ne hmem)] at hne ⊢
    exact ⟨[], parseForm_single hmem hne⟩

theorem not_mem_name (h : IsName name) :
    0x26 ∉ name.flatMap encodedBytes ∧ 0x3D ∉ name.flatMap encodedBytes := by
  constructor <;> intro hmem <;> obtain ⟨c, hc, hbyte⟩ := List.mem_flatMap.mp hmem
  · exact (isNameChar_iff.mp (h c hc)).2.1 (eq_ampersand_of_mem hbyte)
  · exact (isNameChar_iff.mp (h c hc)).2.2.1 (eq_equals_of_mem hbyte)

theorem parameter_ne_nil (name value : List Char) :
    (name ++ '=' :: value).flatMap encodedBytes ≠ [] := by
  rw [List.flatMap_append, List.flatMap_cons]
  exact List.append_ne_nil_of_right_ne_nil _ (List.cons_ne_nil _ _)

theorem parsePair_text (h : IsName name) (text : List Char) :
    parsePair ((name ++ '=' :: text).flatMap encodedBytes) = (name, readBack text) := by
  have hbytes : (name ++ '=' :: text).flatMap encodedBytes =
      name.flatMap encodedBytes ++ 0x3D :: text.flatMap encodedBytes := by
    rw [List.flatMap_append, List.flatMap_cons]
    rfl
  have hname := forall_ne (not_mem_name h).2
  rw [hbytes, parsePair, List.takeWhile_append_of_pos hname, List.dropWhile_append_of_pos hname,
    List.takeWhile_cons_of_neg (by simp), List.dropWhile_cons_of_neg (by simp), List.append_nil,
    List.drop_one, List.tail_cons]
  exact congrArg (·, readBack text) (readBack_name h)

/-- The text of a parameter up to the next question mark. -/
theorem takeWhile_sent (h : IsName name) (text : List Char) :
    (sent (name ++ '=' :: text)).takeWhile (· ≠ '?') =
      name ++ '=' :: (sent text).takeWhile (· ≠ '?') := by
  rw [sent_append_cons (by decide), filter_plain (plain_name h),
    takeWhile_append_cons (takeWhile_plain (plain_name h)) (by decide)]

theorem readParams_head (h : IsName name) (text : List Char) : ∃ more,
    readParams (name ++ '=' :: text) = (name, readBack (cut (text.rdropWhile isBlank))) :: more := by
  have hampersand : '&' ∉ name := fun hmem => (isNameChar_iff.mp (h _ hmem)).2.1 rfl
  have hfirst : (((sent (name ++ '=' :: text)).takeWhile (· ≠ '?')).flatMap encodedBytes).takeWhile
      (· ≠ 0x26) = (name ++ '=' :: cut (text.rdropWhile isBlank)).flatMap encodedBytes := by
    rw [takeWhile_encodedBytes, takeWhile_sent h,
      takeWhile_append_cons (forall_ne hampersand) (by decide)]
    rfl
  rw [readParams_eq]
  obtain ⟨more, hmore⟩ := parseForm_head (hfirst ▸ parameter_ne_nil name _)
  rw [hfirst, parsePair_text h] at hmore
  exact ⟨more, hmore⟩

theorem takeWhile_stop {α : Type} {p : α → Bool} {x : α} (hx : p x = false) (front back : List α) :
    (front ++ x :: back).takeWhile p = front.takeWhile p := by
  induction front with
  | nil => exact List.takeWhile_cons_of_neg (by simp [hx])
  | cons y front ih =>
    cases hy : p y with
    | true => rw [List.cons_append, List.takeWhile_cons_of_pos hy, List.takeWhile_cons_of_pos hy, ih]
    | false =>
      have hnot : ¬ p y = true := by simp [hy]
      rw [List.cons_append, List.takeWhile_cons_of_neg hnot, List.takeWhile_cons_of_neg hnot]

/-- What is found of a value does not depend on the parameters behind it. -/
theorem cut_append_cons (value query : List Char) : cut (value ++ '&' :: query) = cut value := by
  have hampersand : (!isTabOrNewline '&') = true := by decide
  rw [cut, cut, List.filter_append, List.filter_cons, if_pos hampersand]
  by_cases hmem : '?' ∈ value.filter (!isTabOrNewline ·)
  · obtain ⟨front, back, hsplit, -⟩ := List.eq_append_cons_of_mem hmem
    rw [hsplit, List.append_assoc, List.cons_append, takeWhile_stop (by decide),
      takeWhile_stop (by decide)]
  · rw [takeWhile_append_cons (forall_ne hmem) (by decide), takeWhile_stop (by decide),
      List.takeWhile_eq_self_iff.mpr (forall_ne hmem)]

theorem not_mem_parameter (h : IsName name) (hvalue : Plain value) :
    0x26 ∉ (name ++ '=' :: value).flatMap encodedBytes := by
  intro hmem
  obtain ⟨c, hc, hbyte⟩ := List.mem_flatMap.mp hmem
  obtain rfl := eq_ampersand_of_mem hbyte
  rcases List.mem_append.mp hc with hc | hc
  · exact (isNameChar_iff.mp (h _ hc)).2.1 rfl
  · rcases List.mem_cons.mp hc with heq | hc
    · cases heq
    · exact (hvalue.separators _ hc).1 rfl

/-- A plain value ends at its ampersand, and the others are read as if it was not there. -/
theorem readParams_cons (h : IsName name) (hvalue : Plain value) (query : List Char) :
    readParams (name ++ '=' :: (value ++ '&' :: query)) = (name, value) :: readParams query := by
  have htext : (sent (name ++ '=' :: (value ++ '&' :: query))).takeWhile (· ≠ '?') =
      (name ++ '=' :: value) ++ '&' :: (sent query).takeWhile (· ≠ '?') := by
    rw [takeWhile_sent h, sent_append_cons (by decide), filter_plain hvalue,
      takeWhile_append_cons (takeWhile_plain hvalue) (by decide), List.append_assoc, List.cons_append]
  have hform := parseForm_cons (not_mem_parameter h hvalue) (parameter_ne_nil name value)
    (((sent query).takeWhile (· ≠ '?')).flatMap encodedBytes)
  rw [parsePair_text h, (plain_iff.mp hvalue).2] at hform
  rw [readParams_eq, readParams_eq, htext, List.flatMap_append, List.flatMap_cons]
  exact hform

theorem readParams_single (h : IsName name) (hvalue : Plain value)
    (hends : value.rdropWhile isBlank = value) :
    readParams (name ++ '=' :: value) = [(name, value)] := by
  rw [readParams_eq, takeWhile_sent h, sent, hends, filter_plain hvalue,
    List.takeWhile_eq_self_iff.mpr (takeWhile_plain hvalue),
    parseForm_single (not_mem_parameter h hvalue) (parameter_ne_nil name value), parsePair_text h,
    (plain_iff.mp hvalue).2]

/-! ## Which parameters come back -/

/-- The address of a page, with a query behind its path. -/
theorem locationHash_query {path : List Char} (hpath : ∀ c ∈ path, inFragmentSet c = false)
    (query : List Char) : locationHash ('#' :: path ++ '?' :: query) =
      some ('#' :: path ++ '?' :: percentEncode (sent query)) := by
  have hencoded : percentEncode path = path := by
    rw [percentEncode, List.flatMap_congr fun c hc =>
      percentEncodeChar_of_not_inFragmentSet (hpath c hc)]
    exact List.flatMap_singleton' path
  have hfilter : ('#' :: path).filter (!isTabOrNewline ·) = '#' :: path := by
    refine List.filter_eq_self.mpr (List.forall_mem_cons.mpr ⟨by decide, fun c hc => ?_⟩)
    rw [isTabOrNewline_of_not_inFragmentSet (hpath c hc)]
    rfl
  have hurl : (('#' :: path ++ '?' :: query).dropWhile isBlank) = '#' :: path ++ '?' :: query :=
    List.dropWhile_cons_of_neg (by decide)
  have hsent : fragment ('#' :: path ++ '?' :: query) =
      some (path ++ '?' :: percentEncode (sent query)) := by
    have hkept : sent ('#' :: path ++ '?' :: query) = '#' :: (path ++ '?' :: sent query) := by
      rw [sent_append_cons (by decide), hfilter, List.cons_append]
    have hquery : percentEncode (path ++ '?' :: sent query) =
        path ++ '?' :: percentEncode (sent query) := by
      rw [percentEncode, List.flatMap_append, List.flatMap_cons]
      exact congrArg (· ++ '?' :: percentEncode (sent query)) hencoded
    rw [fragment, hurl, hkept]
    exact congrArg some hquery
  have hne : (path ++ '?' :: percentEncode (sent query)).isEmpty = false := by simp
  rw [locationHash, hsent, Option.map_some, hne]
  rfl

variable {params : List (List Char × List Char)}

/-- The blanks at the end of an address are lost. -/
def EndsInBlank (text : List Char) : Prop := ∃ c ∈ text.getLast?, isBlank c

structure Survives (params : List (List Char × List Char)) : Prop where
  plain : ∀ p ∈ params, Plain p.2
  ends : ∀ p ∈ params.getLast?, ¬ EndsInBlank p.2

theorem rdropWhile_eq_iff : text.rdropWhile isBlank = text ↔ ¬ EndsInBlank text := by
  rw [List.rdropWhile_eq_self_iff]
  constructor
  · rintro h ⟨c, hc, hblank⟩
    have hne : text ≠ [] := fun hnil => by rw [hnil] at hc; cases hc
    rw [List.getLast?_eq_some_getLast hne] at hc
    exact h hne (Option.some.inj hc ▸ hblank)
  · exact fun h hne hblank => h ⟨_, List.getLast?_eq_some_getLast hne, hblank⟩

theorem survives_nil : Survives [] :=
  ⟨List.forall_mem_nil _, fun p hp => by cases hp⟩

theorem survives_singleton : Survives [(name, value)] ↔ Plain value ∧ ¬ EndsInBlank value :=
  ⟨fun h => ⟨h.plain _ List.mem_cons_self, h.ends _ rfl⟩, fun h => ⟨List.forall_mem_singleton.mpr h.1,
    fun _ hp => Option.some.inj hp ▸ h.2⟩⟩

theorem survives_cons {p q : List Char × List Char} :
    Survives (p :: q :: params) ↔ Plain p.2 ∧ Survives (q :: params) := by
  constructor
  · rintro ⟨hplain, hends⟩
    rw [List.forall_mem_cons] at hplain
    exact ⟨hplain.1, hplain.2, fun r hr => hends r (by rwa [List.getLast?_cons_cons])⟩
  · rintro ⟨hplain, hrest, hends⟩
    refine ⟨List.forall_mem_cons.mpr ⟨hplain, hrest⟩, fun r hr => hends r ?_⟩
    rwa [List.getLast?_cons_cons] at hr

theorem queryText_singleton : queryText [(name, value)] = name ++ '=' :: value := by
  simp [queryText]

theorem queryText_cons {q : List Char × List Char} :
    queryText ((name, value) :: q :: params) =
      name ++ '=' :: (value ++ '&' :: queryText (q :: params)) := by
  simp [queryText, List.intercalate_cons_cons]

theorem readParams_queryText (hnames : ∀ p ∈ params, IsName p.1) (h : Survives params) :
    readParams (queryText params) = params := by
  induction params with
  | nil => rfl
  | cons p params ih =>
    obtain ⟨name, value⟩ := p
    rw [List.forall_mem_cons] at hnames
    cases params with
    | nil =>
      obtain ⟨hplain, hends⟩ := survives_singleton.mp h
      rw [queryText_singleton, readParams_single hnames.1 hplain (rdropWhile_eq_iff.mpr hends)]
    | cons q params =>
      obtain ⟨hplain, hrest⟩ := survives_cons.mp h
      rw [queryText_cons, readParams_cons hnames.1 hplain, ih hnames.2 hrest]

theorem lookup_cons_iff {read : List Char} {more : List (List Char × List Char)}
    (hname : name ∉ params.map (·.1)) :
    (∀ p ∈ (name, value) :: params, ((name, read) :: more).lookup p.1 = some p.2) ↔
      read = value ∧ ∀ p ∈ params, more.lookup p.1 = some p.2 := by
  rw [List.forall_mem_cons, List.lookup_cons_self, Option.some.injEq]
  refine and_congr_right fun _ => forall₂_congr fun p hp => ?_
  have hne : (p.1 == name) = false := by
    rw [beq_eq_false_iff_ne]
    rintro rfl
    exact hname (List.mem_map_of_mem hp)
  rw [List.lookup_cons, hne]

/-- Each parameter is read with its value exactly if the list survives. The first that is changed
shows it: before it, everything was read as it is. -/
theorem readParams_iff (hnames : ∀ p ∈ params, IsName p.1) (hnodup : (params.map (·.1)).Nodup) :
    (∀ p ∈ params, (readParams (queryText params)).lookup p.1 = some p.2) ↔ Survives params := by
  induction params with
  | nil => exact iff_of_true (List.forall_mem_nil _) survives_nil
  | cons p params ih =>
    obtain ⟨name, value⟩ := p
    rw [List.forall_mem_cons] at hnames
    rw [List.map_cons, List.nodup_cons] at hnodup
    cases params with
    | nil =>
      obtain ⟨more, hmore⟩ := readParams_head hnames.1 value
      rw [queryText_singleton, hmore, lookup_cons_iff hnodup.1, survives_singleton,
        readBack_cut_eq_iff (List.rdropWhile_prefix isBlank value).sublist, rdropWhile_eq_iff]
      exact ⟨fun h => ⟨h.1.2, h.1.1⟩, fun h => ⟨⟨h.2, h.1⟩, List.forall_mem_nil _⟩⟩
    | cons q params =>
      rw [queryText_cons, survives_cons]
      by_cases hplain : Plain value
      · rw [readParams_cons hnames.1 hplain, lookup_cons_iff hnodup.1, ih hnames.2 hnodup.2]
        exact and_congr_left fun _ => iff_of_true rfl hplain
      · refine iff_of_false (fun h => hplain ?_) fun h => hplain h.1
        obtain ⟨more, hmore⟩ := readParams_head hnames.1 (value ++ '&' :: queryText (q :: params))
        rw [hmore, lookup_cons_iff hnodup.1, rdropWhile_append_cons (by decide), cut_append_cons,
          readBack_cut_eq_iff (List.Sublist.refl value)] at h
        exact h.1.2

end UrlParameters
