import Mathlib.Data.List.Basic

/-! # Texts as 16-bit units and as bytes

A text is a list of scalar values (`Char`). Units and bytes that are no text are still read, with
U+FFFD for what makes no sense.

* `utf16`, `scalarValues`: the units of a text, and the text of any units. A surrogate without its
  partner becomes U+FFFD, so just the units that come from a text survive (`utf16_eq_iff`).
* `utf8`, `utf8Decode`: the bytes of a text, and the text of any bytes. The bytes of a character
  are read as this character (`utf8Decode_char`), and a byte in front of others adds at most one
  (`length_utf8Decode_cons`).
-/
namespace Unicode
set_option autoImplicit false

def replacement : Char := Char.ofNat 0xFFFD

theorem toNat_ofNat {n : ℕ} (h : n.isValidChar) : (Char.ofNat n).toNat = n := by
  rw [Char.ofNat, dif_pos h]
  rfl

theorem toNat_valid (c : Char) : c.toNat < 0xD800 ∨ 0xDFFF < c.toNat ∧ c.toNat < 0x110000 := c.valid

/-! ## Units of 16 bits -/

def utf16Char (c : Char) : List UInt16 :=
  if c.toNat < 0x10000 then [UInt16.ofNat c.toNat]
  else [UInt16.ofNat (0xD800 + (c.toNat - 0x10000) / 0x400),
    UInt16.ofNat (0xDC00 + (c.toNat - 0x10000) % 0x400)]

def utf16 (text : List Char) : List UInt16 := text.flatMap utf16Char

def IsHigh (u : UInt16) : Prop := 0xD800 ≤ u.toNat ∧ u.toNat < 0xDC00

def IsLow (u : UInt16) : Prop := 0xDC00 ≤ u.toNat ∧ u.toNat < 0xE000

instance (u : UInt16) : Decidable (IsHigh u) := inferInstanceAs (Decidable (_ ∧ _))

instance (u : UInt16) : Decidable (IsLow u) := inferInstanceAs (Decidable (_ ∧ _))

/-- The scalar value of a unit that is not part of a pair. -/
def scalarValue (u : UInt16) : Char :=
  if IsHigh u ∨ IsLow u then replacement else Char.ofNat u.toNat

def pairValue (u v : UInt16) : Char :=
  Char.ofNat (0x10000 + (u.toNat - 0xD800) * 0x400 + (v.toNat - 0xDC00))

def scalarValues : List UInt16 → List Char
  | [] => []
  | [u] => [scalarValue u]
  | u :: v :: units =>
    if IsHigh u ∧ IsLow v then pairValue u v :: scalarValues units
    else scalarValue u :: scalarValues (v :: units)

variable {c : Char} {text : List Char} {units rest : List UInt16} {u : UInt16}

theorem scalarValues_cons (h : ¬ IsHigh u) :
    scalarValues (u :: units) = scalarValue u :: scalarValues units := by
  cases units with
  | nil => rfl
  | cons v units => rw [scalarValues, if_neg fun hpair => h hpair.1]

theorem scalarValues_char (c : Char) (rest : List UInt16) :
    scalarValues (utf16Char c ++ rest) = c :: scalarValues rest := by
  have hvalid := toNat_valid c
  unfold utf16Char
  split
  · next hsmall =>
    have hunit : (UInt16.ofNat c.toNat).toNat = c.toNat := by
      rw [UInt16.toNat_ofNat']
      omega
    have hhigh : ¬ IsHigh (UInt16.ofNat c.toNat) := by rw [IsHigh, hunit]; omega
    have hlow : ¬ IsLow (UInt16.ofNat c.toNat) := by rw [IsLow, hunit]; omega
    rw [List.singleton_append, scalarValues_cons hhigh, scalarValue, if_neg (not_or.mpr ⟨hhigh, hlow⟩),
      hunit, Char.ofNat_toNat]
  · next hlarge =>
    have hfirst : (UInt16.ofNat (0xD800 + (c.toNat - 0x10000) / 0x400)).toNat =
        0xD800 + (c.toNat - 0x10000) / 0x400 := by
      rw [UInt16.toNat_ofNat']
      omega
    have hsecond : (UInt16.ofNat (0xDC00 + (c.toNat - 0x10000) % 0x400)).toNat =
        0xDC00 + (c.toNat - 0x10000) % 0x400 := by
      rw [UInt16.toNat_ofNat']
      omega
    rw [List.cons_append, List.singleton_append, scalarValues, if_pos, pairValue, hfirst, hsecond]
    · have hvalue : 0x10000 + (0xD800 + (c.toNat - 0x10000) / 0x400 - 0xD800) * 0x400 +
          (0xDC00 + (c.toNat - 0x10000) % 0x400 - 0xDC00) = c.toNat := by omega
      rw [hvalue, Char.ofNat_toNat]
    · rw [IsHigh, IsLow, hfirst, hsecond]
      omega

theorem scalarValues_utf16_append (text : List Char) (rest : List UInt16) :
    scalarValues (utf16 text ++ rest) = text ++ scalarValues rest := by
  induction text with
  | nil => rfl
  | cons c text ih =>
    rw [utf16, List.flatMap_cons, List.append_assoc, scalarValues_char]
    exact congrArg (c :: ·) ih

@[simp]
theorem scalarValues_utf16 (text : List Char) : scalarValues (utf16 text) = text := by
  have h := scalarValues_utf16_append text []
  rwa [List.append_nil, scalarValues, List.append_nil] at h

/-- Nothing pairs up across a unit that is not the second half of a pair. -/
theorem scalarValues_append (h : ¬ IsLow u) (units rest : List UInt16) :
    scalarValues (units ++ u :: rest) = scalarValues units ++ scalarValues (u :: rest) := by
  induction units using scalarValues.induct with
  | case1 => rfl
  | case2 v => exact if_neg fun hpair => h hpair.2
  | case3 v w units hpair ih =>
    rw [List.cons_append, List.cons_append, scalarValues, scalarValues, if_pos hpair, if_pos hpair, ih,
      List.cons_append]
  | case4 v w units hpair ih =>
    rw [List.cons_append, List.cons_append, scalarValues, scalarValues, if_neg hpair, if_neg hpair,
      List.cons_append]
    exact congrArg (scalarValue v :: ·) ih

/-- An ASCII character is not part of another one. -/
theorem eq_of_mem_utf16Char {sep : Char} (hascii : sep.toNat < 0x80)
    (h : UInt16.ofNat sep.toNat ∈ utf16Char c) : c = sep := by
  have hvalid := toNat_valid c
  have hunit : ∀ n < 0x10000, UInt16.ofNat sep.toNat = UInt16.ofNat n → sep.toNat = n := by
    intro n hn heq
    have hvalue := congrArg UInt16.toNat heq
    rw [UInt16.toNat_ofNat', UInt16.toNat_ofNat'] at hvalue
    omega
  unfold utf16Char at h
  split at h
  · next hsmall =>
    have hvalue := hunit c.toNat hsmall (List.mem_singleton.mp h)
    rw [← Char.ofNat_toNat c, ← hvalue, Char.ofNat_toNat]
  · simp only [List.mem_cons, List.not_mem_nil, or_false] at h
    rcases h with h | h
    · have hvalue := hunit _ (by omega) h
      omega
    · have hvalue := hunit _ (by omega) h
      omega

/-- The units of a text. -/
def WellFormed (units : List UInt16) : Prop := utf16 (scalarValues units) = units

theorem wellFormed_utf16 (text : List Char) : WellFormed (utf16 text) := by
  rw [WellFormed, scalarValues_utf16]

/-- What is read from units is written as they are just when they are those of a text. -/
theorem utf16_eq_iff : utf16 text = units ↔ text = scalarValues units ∧ WellFormed units := by
  constructor
  · rintro rfl
    exact ⟨(scalarValues_utf16 text).symm, wellFormed_utf16 text⟩
  · rintro ⟨rfl, h⟩
    exact h

/-! ## Bytes -/

def utf8 (text : List Char) : List UInt8 := text.flatMap String.utf8EncodeChar

/-- A character whose next byte lies in these bounds, and that takes some `more` bytes after it. -/
structure Partial where
  codePoint : ℕ
  more : ℕ
  lower : ℕ
  upper : ℕ
  lower_le : 0x80 ≤ lower
  upper_le : upper ≤ 0xBF

/-- The characters that a byte completes, and the one that it leaves incomplete. -/
abbrev Decoded := List Char × Option Partial

/-- The first byte of a character, by its value. -/
def firstByte (n : ℕ) : Decoded :=
  if n < 0x80 then ([Char.ofNat n], none)
  else if n < 0xC2 then ([replacement], none)
  else if n < 0xE0 then ([], some ⟨n - 0xC0, 0, 0x80, 0xBF, by decide, by decide⟩)
  else if n < 0xF0 then
    -- the bounds keep out what has a shorter form, and the surrogates
    ([], some ⟨n - 0xE0, 1, if n = 0xE0 then 0xA0 else 0x80, if n = 0xED then 0x9F else 0xBF,
      by split <;> decide, by split <;> decide⟩)
  else if n < 0xF5 then
    ([], some ⟨n - 0xF0, 2, if n = 0xF0 then 0x90 else 0x80, if n = 0xF4 then 0x8F else 0xBF,
      by split <;> decide, by split <;> decide⟩)
  else ([replacement], none)

/-- A byte that does not continue the character is read again as a first byte. -/
def nextByte : Option Partial → UInt8 → Decoded
  | none, b => firstByte b.toNat
  | some p, b =>
    if p.lower ≤ b.toNat ∧ b.toNat ≤ p.upper then
      let codePoint := p.codePoint * 0x40 + (b.toNat - 0x80)
      match p.more with
      | 0 => ([Char.ofNat codePoint], none)
      | more + 1 => ([], some ⟨codePoint, more, 0x80, 0xBF, by decide, by decide⟩)
    else (replacement :: (firstByte b.toNat).1, (firstByte b.toNat).2)

def utf8Decode : Option Partial → List UInt8 → List Char
  | none, [] => []
  | some _, [] => [replacement]
  | p, b :: bytes => (nextByte p b).1 ++ utf8Decode (nextByte p b).2 bytes

theorem utf8Decode_none_cons (b : UInt8) (bytes : List UInt8) : utf8Decode none (b :: bytes) =
    (firstByte b.toNat).1 ++ utf8Decode (firstByte b.toNat).2 bytes := rfl

/-- The last byte of a character. -/
theorem utf8Decode_last {p : Partial} {b : UInt8} (hmore : p.more = 0)
    (hb : p.lower ≤ b.toNat ∧ b.toNat ≤ p.upper) (bytes : List UInt8) :
    utf8Decode (some p) (b :: bytes) =
      Char.ofNat (p.codePoint * 0x40 + (b.toNat - 0x80)) :: utf8Decode none bytes := by
  rw [utf8Decode, nextByte, if_pos hb, hmore]
  rfl

/-- A byte in the middle of a character. -/
theorem utf8Decode_middle {p : Partial} {b : UInt8} {more : ℕ} (hmore : p.more = more + 1)
    (hb : p.lower ≤ b.toNat ∧ b.toNat ≤ p.upper) (bytes : List UInt8) :
    utf8Decode (some p) (b :: bytes) = utf8Decode (some ⟨p.codePoint * 0x40 + (b.toNat - 0x80), more,
      0x80, 0xBF, by decide, by decide⟩) bytes := by
  rw [utf8Decode, nextByte, if_pos hb, hmore]
  rfl

theorem utf8Decode_stray {p : Partial} {b : UInt8} (hb : ¬ (p.lower ≤ b.toNat ∧ b.toNat ≤ p.upper))
    (bytes : List UInt8) :
    utf8Decode (some p) (b :: bytes) = replacement :: utf8Decode none (b :: bytes) := by
  rw [utf8Decode, nextByte, if_neg hb]
  rfl

theorem utf8Decode_char (c : Char) (bytes : List UInt8) :
    utf8Decode none (String.utf8EncodeChar c ++ bytes) = c :: utf8Decode none bytes := by
  have hvalid := toNat_valid c
  have hval : c.val.toNat = c.toNat := rfl
  have hbyte : ∀ n < 0x100, (UInt8.ofNat n).toNat = n := fun n hn =>
    (UInt8.toNat_ofNat').trans (Nat.mod_eq_of_lt hn)
  unfold String.utf8EncodeChar
  simp only [hval]
  split
  · next hone =>
    have hfirst := hbyte c.toNat (by omega)
    rw [List.singleton_append, utf8Decode_none_cons, hfirst, firstByte, if_pos (by omega),
      Char.ofNat_toNat]
    rfl
  split
  · next htwo =>
    have hfirst := hbyte (c.toNat / 64 % 0x20 + 0xC0) (by omega)
    have hlast := hbyte (c.toNat % 0x40 + 0x80) (by omega)
    have hpoint : (c.toNat / 64 % 0x20 + 0xC0 - 0xC0) * 0x40 + (c.toNat % 0x40 + 0x80 - 0x80) =
        c.toNat := by omega
    rw [List.cons_append, List.singleton_append, utf8Decode_none_cons, hfirst, firstByte,
      if_neg (by omega), if_neg (by omega), if_pos (by omega), List.nil_append,
      utf8Decode_last rfl (by dsimp only; omega), hlast, hpoint, Char.ofNat_toNat]
  split
  · next hthree =>
    have hfirst := hbyte (c.toNat / 4096 % 0x10 + 0xE0) (by omega)
    have hsecond := hbyte (c.toNat / 64 % 0x40 + 0x80) (by omega)
    have hlast := hbyte (c.toNat % 0x40 + 0x80) (by omega)
    have hpoint : ((c.toNat / 4096 % 0x10 + 0xE0 - 0xE0) * 0x40 +
        (c.toNat / 64 % 0x40 + 0x80 - 0x80)) * 0x40 + (c.toNat % 0x40 + 0x80 - 0x80) = c.toNat := by
      omega
    rw [List.cons_append, List.cons_append, List.singleton_append, utf8Decode_none_cons, hfirst,
      firstByte, if_neg (by omega), if_neg (by omega), if_neg (by omega), if_pos (by omega),
      List.nil_append, utf8Decode_middle rfl (by dsimp only; split_ifs <;> omega), hsecond,
      utf8Decode_last rfl (by dsimp only; omega), hlast, hpoint, Char.ofNat_toNat]
  · next hfour =>
    have hfirst := hbyte (c.toNat / 262144 % 0x08 + 0xF0) (by omega)
    have hsecond := hbyte (c.toNat / 4096 % 0x40 + 0x80) (by omega)
    have hthird := hbyte (c.toNat / 64 % 0x40 + 0x80) (by omega)
    have hlast := hbyte (c.toNat % 0x40 + 0x80) (by omega)
    have hpoint : (((c.toNat / 262144 % 0x08 + 0xF0 - 0xF0) * 0x40 +
        (c.toNat / 4096 % 0x40 + 0x80 - 0x80)) * 0x40 + (c.toNat / 64 % 0x40 + 0x80 - 0x80)) * 0x40 +
          (c.toNat % 0x40 + 0x80 - 0x80) = c.toNat := by omega
    rw [List.cons_append, List.cons_append, List.cons_append, List.singleton_append,
      utf8Decode_none_cons, hfirst, firstByte, if_neg (by omega), if_neg (by omega),
      if_neg (by omega), if_neg (by omega), if_pos (by omega), List.nil_append,
      utf8Decode_middle rfl (by dsimp only; split_ifs <;> omega), hsecond,
      utf8Decode_middle rfl (by dsimp only; omega), hthird,
      utf8Decode_last rfl (by dsimp only; omega), hlast, hpoint, Char.ofNat_toNat]

/-- An incomplete character is worth at most one more than its bytes left out. -/
theorem length_utf8Decode_some (p : Partial) (bytes : List UInt8) :
    (utf8Decode (some p) bytes).length ≤ (utf8Decode none bytes).length + 1 := by
  induction bytes generalizing p with
  | nil => exact Nat.le_refl _
  | cons b bytes ih =>
    by_cases hb : p.lower ≤ b.toNat ∧ b.toNat ≤ p.upper
    · -- on its own, the byte would be read as U+FFFD
      have hlower := p.lower_le
      have hupper := p.upper_le
      have halone : utf8Decode none (b :: bytes) = replacement :: utf8Decode none bytes := by
        rw [utf8Decode_none_cons, firstByte, if_neg (by omega), if_pos (by omega)]
        rfl
      rw [halone, List.length_cons]
      cases hmore : p.more with
      | zero => rw [utf8Decode_last hmore hb, List.length_cons]; omega
      | succ more => rw [utf8Decode_middle hmore hb]; exact Nat.le_succ_of_le (ih _)
    · exact Nat.le_of_eq (by rw [utf8Decode_stray hb, List.length_cons])

/-- A first byte is a character of its own or begins one. -/
theorem firstByte_cases (n : ℕ) :
    (∃ c, firstByte n = ([c], none)) ∨ ∃ p, firstByte n = ([], some p) := by
  unfold firstByte
  split
  · exact .inl ⟨_, rfl⟩
  split
  · exact .inl ⟨_, rfl⟩
  split
  · exact .inr ⟨_, rfl⟩
  split
  · exact .inr ⟨_, rfl⟩
  split
  · exact .inr ⟨_, rfl⟩
  · exact .inl ⟨_, rfl⟩

theorem length_utf8Decode_cons (b : UInt8) (bytes : List UInt8) :
    (utf8Decode none (b :: bytes)).length ≤ (utf8Decode none bytes).length + 1 := by
  rw [utf8Decode_none_cons]
  obtain ⟨c, hfirst⟩ | ⟨p, hfirst⟩ := firstByte_cases b.toNat
  · rw [hfirst]
    exact Nat.le_refl _
  · rw [hfirst]
    exact length_utf8Decode_some p bytes

end Unicode
