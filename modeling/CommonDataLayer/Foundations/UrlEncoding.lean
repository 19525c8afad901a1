import Mathlib.Data.List.DropRight
import Mathlib.Data.List.Infix
import CommonDataLayer.Foundations.Unicode

/-! # Texts in the fragment of a URL

A text that goes into the fragment of a URL is escaped in one way, and decoded in another when it is
read as `application/x-www-form-urlencoded`.

* `locationHash`: what the URL parser leaves of a text that starts with a number sign. It strips blanks at
  the ends, drops tabs and newlines, and escapes some characters, but no percent sign.
* `decodePart`: how a name or a value is read. Plus signs are spaces, and escapes are bytes.
* `readBack`: the text that is read where a text was written. It is never longer, and shorter where
  the text looks like an escape (`length_readBack`).
* `Plain`: the texts that are read as they are, `plain_iff`.
-/
namespace UrlEncoding
open Unicode
set_option autoImplicit false

/-! ## What the address holds -/

/-- A C0 control or a space. -/
def isBlank (c : Char) : Bool := c.toNat ≤ 0x20

def isTabOrNewline (c : Char) : Bool := c.toNat = 0x9 || c.toNat = 0xA || c.toNat = 0xD

/-- The fragment percent-encode set. -/
def inFragmentSet (c : Char) : Bool :=
  c.toNat < 0x20 || 0x7E < c.toNat || [0x20, 0x22, 0x3C, 0x3E, 0x60].contains c.toNat

def hexDigit (n : ℕ) : Char := Char.ofNat (if n < 10 then 0x30 + n else 0x37 + n)

def percentEncodeByte (b : UInt8) : List Char :=
  ['%', hexDigit (b.toNat / 16), hexDigit (b.toNat % 16)]

def percentEncodeChar (c : Char) : List Char :=
  if inFragmentSet c then (String.utf8EncodeChar c).flatMap percentEncodeByte else [c]

def percentEncode (text : List Char) : List Char := text.flatMap percentEncodeChar

/-- What the URL parser leaves of the end of a text, before it escapes it. -/
def sent (text : List Char) : List Char := (text.rdropWhile isBlank).filter (!isTabOrNewline ·)

/-- The URL parser on a text that starts with a number sign; other texts are not the concern here. -/
def fragment (url : List Char) : Option (List Char) :=
  match sent (url.dropWhile isBlank) with
  | '#' :: text => some (percentEncode text)
  | _ => none

/-- `location.hash` once the document has this URL. -/
def locationHash (url : List Char) : Option (List Char) :=
  (fragment url).map fun text => if text.isEmpty then [] else '#' :: text

/-! ## What is read from it -/

def hexValue (n : ℕ) : Option ℕ :=
  if 0x30 ≤ n ∧ n ≤ 0x39 then some (n - 0x30)
  else if 0x41 ≤ n ∧ n ≤ 0x46 then some (n - 0x37)
  else if 0x61 ≤ n ∧ n ≤ 0x66 then some (n - 0x57)
  else none

def escapedByte (b hi lo : UInt8) : Option UInt8 :=
  if b = 0x25 then
    (hexValue hi.toNat).bind fun x => (hexValue lo.toNat).map fun y => UInt8.ofNat (16 * x + y)
  else none

def isHexDigit (c : Char) : Bool := (hexValue c.toNat).isSome

def percentDecode : List UInt8 → List UInt8
  | b :: hi :: lo :: bytes =>
    match escapedByte b hi lo with
    | some byte => byte :: percentDecode bytes
    | none => b :: percentDecode (hi :: lo :: bytes)
  | bytes => bytes

def plusToSpace (b : UInt8) : UInt8 := if b = 0x2B then 0x20 else b

def decodePart (bytes : List UInt8) : List Char :=
  utf8Decode none (percentDecode (bytes.map plusToSpace))

variable {c a b : Char} {text : List Char} {bytes rest : List UInt8}

/-! ## The bytes of an escaped text -/

theorem hexDigit_toNat {n : ℕ} (h : n < 16) :
    (hexDigit n).toNat = if n < 10 then 0x30 + n else 0x37 + n :=
  toNat_ofNat (by split <;> left <;> omega)

theorem hexValue_hexDigit {n : ℕ} (h : n < 16) : hexValue (hexDigit n).toNat = some n := by
  rw [hexDigit_toNat h]
  unfold hexValue
  split
  · rw [if_pos (by omega), Nat.add_sub_cancel_left]
  · rw [if_neg (by omega), if_pos (by omega), Nat.add_sub_cancel_left]

theorem utf8EncodeChar_of_ascii (h : c.toNat < 0x80) :
    String.utf8EncodeChar c = [UInt8.ofNat c.toNat] :=
  if_pos (Nat.le_of_lt_succ h)

theorem utf8_of_ascii (h : ∀ c ∈ text, c.toNat < 0x80) :
    utf8 text = text.map fun c => UInt8.ofNat c.toNat := by
  induction text with
  | nil => rfl
  | cons c text ih =>
    rw [List.forall_mem_cons] at h
    rw [utf8, List.flatMap_cons, utf8EncodeChar_of_ascii h.1, List.map_cons, ← ih h.2]
    rfl

theorem byte_toNat (h : c.toNat < 0x80) : (UInt8.ofNat c.toNat).toNat = c.toNat := by
  rw [UInt8.toNat_ofNat']
  omega

theorem byte_ne (ha : a.toNat < 0x80) (hb : b.toNat < 0x80) (h : a ≠ b) :
    UInt8.ofNat a.toNat ≠ UInt8.ofNat b.toNat := by
  intro heq
  have hvalue : a.toNat = b.toNat := by rw [← byte_toNat ha, heq, byte_toNat hb]
  exact h (by rw [← Char.ofNat_toNat a, hvalue, Char.ofNat_toNat])

/-- What stands for a character: the character, or percent signs and hexadecimal digits. -/
theorem mem_percentEncodeChar (h : a ∈ percentEncodeChar c) :
    inFragmentSet c = false ∧ a = c ∨
      inFragmentSet c = true ∧ (a = '%' ∨ ∃ n < 16, a = hexDigit n) := by
  unfold percentEncodeChar at h
  split at h
  · next hset =>
    right
    obtain ⟨byte, -, hbyte⟩ := List.mem_flatMap.mp h
    have hlt := byte.toNat_lt
    simp only [percentEncodeByte, List.mem_cons, List.not_mem_nil, or_false] at hbyte
    obtain rfl | rfl | rfl := hbyte
    · exact ⟨hset, .inl rfl⟩
    · exact ⟨hset, .inr ⟨_, by omega, rfl⟩⟩
    · exact ⟨hset, .inr ⟨_, by omega, rfl⟩⟩
  · next hset => exact .inl ⟨by simpa using hset, List.mem_singleton.mp h⟩

def encodedBytes (c : Char) : List UInt8 := utf8 (percentEncodeChar c)

theorem utf8_percentEncode (text : List Char) :
    utf8 (percentEncode text) = text.flatMap encodedBytes := by
  rw [utf8, percentEncode, List.flatMap_assoc]
  rfl

theorem bounds_of_not_inFragmentSet (h : inFragmentSet c = false) :
    0x20 < c.toNat ∧ c.toNat ≤ 0x7E := by
  simp only [inFragmentSet, Bool.or_eq_false_iff, decide_eq_false_iff_not, List.contains_eq_mem,
    List.mem_cons, not_or] at h
  omega

theorem percentEncodeChar_of_not_inFragmentSet (h : inFragmentSet c = false) :
    percentEncodeChar c = [c] := by
  rw [percentEncodeChar, h]
  rfl

theorem encodedBytes_of_not_inFragmentSet (h : inFragmentSet c = false) :
    encodedBytes c = [UInt8.ofNat c.toNat] := by
  have hbounds := bounds_of_not_inFragmentSet h
  rw [encodedBytes, percentEncodeChar_of_not_inFragmentSet h, utf8_of_ascii]
  · rfl
  · exact List.forall_mem_singleton.mpr (by omega)

theorem utf8_percentEncodeByte (b : UInt8) : utf8 (percentEncodeByte b) =
    [0x25, UInt8.ofNat (hexDigit (b.toNat / 16)).toNat, UInt8.ofNat (hexDigit (b.toNat % 16)).toNat] := by
  have hlt := b.toNat_lt
  refine utf8_of_ascii ?_
  simp only [percentEncodeByte, List.mem_cons, List.not_mem_nil, or_false]
  rintro c (rfl | rfl | rfl)
  · decide
  · rw [hexDigit_toNat (by omega)]
    split <;> omega
  · rw [hexDigit_toNat (by omega)]
    split <;> omega

/-! ## Reading an escaped text back -/

theorem percentDecode_cons {byte : UInt8} (h : byte ≠ 0x25) (bytes : List UInt8) :
    percentDecode (byte :: bytes) = byte :: percentDecode bytes := by
  rcases bytes with _ | ⟨hi, _ | ⟨lo, bytes⟩⟩
  · rfl
  · rfl
  · rw [percentDecode, escapedByte, if_neg h]

theorem hexByte {n : ℕ} (h : n < 16) :
    plusToSpace (UInt8.ofNat (hexDigit n).toNat) = UInt8.ofNat (hexDigit n).toNat ∧
      hexValue (UInt8.ofNat (hexDigit n).toNat).toNat = some n := by
  have hdigit := hexDigit_toNat h
  have hbyte : (UInt8.ofNat (hexDigit n).toNat).toNat = (hexDigit n).toNat := by
    rw [UInt8.toNat_ofNat', hdigit]
    split <;> omega
  constructor
  · refine if_neg fun hplus => ?_
    have hvalue : (UInt8.ofNat (hexDigit n).toNat).toNat = 0x2B := congrArg UInt8.toNat hplus
    rw [hbyte, hdigit] at hvalue
    split at hvalue <;> omega
  · rw [hbyte, hexValue_hexDigit h]

/-- An escape that the URL parser has written. -/
theorem percentDecode_encoded (b : UInt8) (bytes : List UInt8) :
    percentDecode ((utf8 (percentEncodeByte b)).map plusToSpace ++ bytes) =
      b :: percentDecode bytes := by
  have hlt := b.toNat_lt
  have hhi := hexByte (n := b.toNat / 16) (by omega)
  have hlo := hexByte (n := b.toNat % 16) (by omega)
  have hpercent : plusToSpace 0x25 = 0x25 := by decide
  have hvalue : 16 * (b.toNat / 16) + b.toNat % 16 = b.toNat := by omega
  have hescaped : escapedByte 0x25 (UInt8.ofNat (hexDigit (b.toNat / 16)).toNat)
      (UInt8.ofNat (hexDigit (b.toNat % 16)).toNat) = some b := by
    rw [escapedByte, if_pos rfl, hhi.2, hlo.2, Option.bind_some, Option.map_some, hvalue,
      UInt8.ofNat_toNat]
  rw [utf8_percentEncodeByte, List.map_cons, List.map_cons, List.map_cons, List.map_nil, hpercent,
    hhi.1, hlo.1, List.cons_append, List.cons_append, List.singleton_append, percentDecode, hescaped]

theorem percentDecode_encodedBytes (encoded : List UInt8) (bytes : List UInt8) :
    percentDecode ((utf8 (encoded.flatMap percentEncodeByte)).map plusToSpace ++ bytes) =
      encoded ++ percentDecode bytes := by
  induction encoded with
  | nil => rfl
  | cons b encoded ih =>
    have hutf8 : utf8 ((b :: encoded).flatMap percentEncodeByte) =
        utf8 (percentEncodeByte b) ++ utf8 (encoded.flatMap percentEncodeByte) := List.flatMap_append
    rw [hutf8, List.map_append, List.append_assoc, percentDecode_encoded, ih]
    rfl

/-- The bytes that a text has become when it is read, as the bytes of characters. -/
def decoded (text : List Char) : List UInt8 :=
  percentDecode ((text.flatMap encodedBytes).map plusToSpace)

def readBack (text : List Char) : List Char := utf8Decode none (decoded text)

def plusAsSpace (c : Char) : Char := if c = '+' then ' ' else c

theorem decoded_cons (h : c ≠ '%') (text : List Char) :
    decoded (c :: text) = String.utf8EncodeChar (plusAsSpace c) ++ decoded text := by
  rw [decoded, List.flatMap_cons, List.map_append]
  cases hset : inFragmentSet c with
  | true =>
    have hplus : c ≠ '+' := by rintro rfl; cases hset
    have hencoded : encodedBytes c = utf8 ((String.utf8EncodeChar c).flatMap percentEncodeByte) := by
      rw [encodedBytes, percentEncodeChar, hset]
      rfl
    rw [hencoded, percentDecode_encodedBytes, plusAsSpace, if_neg hplus]
    rfl
  | false =>
    have hbounds := bounds_of_not_inFragmentSet hset
    have hpercent : UInt8.ofNat c.toNat ≠ 0x25 := byte_ne (by omega) (by decide) h
    rw [encodedBytes_of_not_inFragmentSet hset, List.map_singleton, List.singleton_append]
    by_cases hplus : c = '+'
    · subst hplus
      exact percentDecode_cons (by decide) _
    · have hbyte : UInt8.ofNat c.toNat ≠ 0x2B := byte_ne (by omega) (by decide) hplus
      rw [plusToSpace, if_neg hbyte, percentDecode_cons hpercent, plusAsSpace, if_neg hplus,
        utf8EncodeChar_of_ascii (by omega)]
      rfl

theorem hexValue_bounds {n x : ℕ} (h : hexValue n = some x) :
    x < 16 ∧ (0x30 ≤ n ∧ n ≤ 0x39 ∨ 0x41 ≤ n ∧ n ≤ 0x46 ∨ 0x61 ≤ n ∧ n ≤ 0x66) := by
  unfold hexValue at h
  split at h
  · cases h
    omega
  split at h
  · cases h
    omega
  split at h
  · cases h
    omega
  · cases h

/-- A hexadecimal digit is written as it is. -/
theorem encodedBytes_hex {x : ℕ} (h : hexValue c.toNat = some x) :
    (encodedBytes c).map plusToSpace = [UInt8.ofNat c.toNat] ∧
      hexValue (UInt8.ofNat c.toNat).toNat = some x := by
  have hbounds := (hexValue_bounds h).2
  have hset : inFragmentSet c = false := by
    simp only [inFragmentSet, Bool.or_eq_false_iff, decide_eq_false_iff_not, List.contains_eq_mem,
      List.mem_cons, List.not_mem_nil, or_false]
    omega
  have hplus : c ≠ '+' := by
    rintro rfl
    exact absurd hbounds (by decide)
  have hbyte : UInt8.ofNat c.toNat ≠ 0x2B := byte_ne (by omega) (by decide) hplus
  constructor
  · rw [encodedBytes_of_not_inFragmentSet hset, List.map_singleton, plusToSpace, if_neg hbyte]
  · rw [byte_toNat (by omega), h]

/-- Any other character is written with a first byte that is no hexadecimal digit. -/
theorem encodedBytes_not_hex (h : hexValue c.toNat = none) : ∃ byte bytes,
    (encodedBytes c).map plusToSpace = byte :: bytes ∧ hexValue byte.toNat = none := by
  cases hset : inFragmentSet c with
  | true =>
    obtain ⟨b, encoded, hutf8⟩ := List.exists_cons_of_ne_nil (String.utf8EncodeChar_ne_nil (c := c))
    refine ⟨0x25, ?_, ?_, by decide⟩
    rotate_left
    rw [encodedBytes, percentEncodeChar, hset, if_pos rfl, hutf8, List.flatMap_cons]
    rfl
  | false =>
    have hbounds := bounds_of_not_inFragmentSet hset
    rw [encodedBytes_of_not_inFragmentSet hset, List.map_singleton]
    by_cases hplus : c = '+'
    · subst hplus
      exact ⟨_, _, rfl, by decide⟩
    · have hbyte : UInt8.ofNat c.toNat ≠ 0x2B := byte_ne (by omega) (by decide) hplus
      refine ⟨_, _, rfl, ?_⟩
      rw [plusToSpace, if_neg hbyte, byte_toNat (by omega), h]

theorem percentDecode_literal {bytes : List UInt8} (h : ∀ hi lo more, bytes = hi :: lo :: more →
      hexValue hi.toNat = none ∨ hexValue lo.toNat = none) :
    percentDecode (0x25 :: bytes) = 0x25 :: percentDecode bytes := by
  rcases bytes with _ | ⟨hi, _ | ⟨lo, more⟩⟩
  · rfl
  · rfl
  · have hnone : escapedByte 0x25 hi lo = none := by
      rw [escapedByte, if_pos rfl]
      rcases h hi lo more rfl with hhi | hlo
      · rw [hhi, Option.bind_none]
      · rw [hlo]
        cases hexValue hi.toNat <;> rfl
    rw [percentDecode, hnone]

theorem hexValue_eq_none (h : ¬ isHexDigit c) : hexValue c.toNat = none :=
  Option.not_isSome_iff_eq_none.mp h

theorem decoded_percent (h : ∀ a b, isHexDigit a → isHexDigit b → ¬ [a, b] <+: text) :
    decoded ('%' :: text) = 0x25 :: decoded text := by
  have hstart : decoded ('%' :: text) =
      percentDecode (0x25 :: (text.flatMap encodedBytes).map plusToSpace) := rfl
  rw [hstart]
  refine percentDecode_literal fun hi lo more heq => ?_
  rcases text with _ | ⟨a, text⟩
  · cases heq
  rw [List.flatMap_cons, List.map_append] at heq
  cases ha : hexValue a.toNat with
  | none =>
    obtain ⟨byte, bytes, hbytes, hnone⟩ := encodedBytes_not_hex ha
    rw [hbytes, List.cons_append] at heq
    exact .inl ((List.cons.inj heq).1 ▸ hnone)
  | some x =>
    right
    rw [(encodedBytes_hex ha).1] at heq
    rcases text with _ | ⟨b, text⟩
    · cases heq
    have hb : ¬ isHexDigit b := fun hb =>
      h a b (by rw [isHexDigit, ha]; rfl) hb (List.prefix_append [a, b] text)
    obtain ⟨byte, bytes, hbytes, hnone⟩ := encodedBytes_not_hex (hexValue_eq_none hb)
    rw [List.flatMap_cons, List.map_append, hbytes, List.singleton_append, List.cons_append] at heq
    exact (List.cons.inj (List.cons.inj heq).2).1 ▸ hnone

theorem decoded_escape {x y : ℕ} (ha : hexValue a.toNat = some x) (hb : hexValue b.toNat = some y)
    (text : List Char) :
    decoded ('%' :: a :: b :: text) = UInt8.ofNat (16 * x + y) :: decoded text := by
  obtain ⟨habytes, havalue⟩ := encodedBytes_hex ha
  obtain ⟨hbbytes, hbvalue⟩ := encodedBytes_hex hb
  have hstart : decoded ('%' :: a :: b :: text) = percentDecode (0x25 ::
      ((encodedBytes a).map plusToSpace ++ ((encodedBytes b).map plusToSpace ++
        (text.flatMap encodedBytes).map plusToSpace))) := by
    rw [← List.map_append, ← List.map_append, ← List.flatMap_cons, ← List.flatMap_cons]
    rfl
  rw [hstart, habytes, hbbytes, List.singleton_append, List.singleton_append, percentDecode,
    escapedByte, if_pos rfl, havalue, hbvalue]
  rfl

theorem readBack_cons (h : c ≠ '%') (text : List Char) :
    readBack (c :: text) = plusAsSpace c :: readBack text := by
  rw [readBack, decoded_cons h, utf8Decode_char]
  rfl

theorem readBack_percent (h : ∀ a b, isHexDigit a → isHexDigit b → ¬ [a, b] <+: text) :
    readBack ('%' :: text) = '%' :: readBack text := by
  rw [readBack, decoded_percent h]
  exact utf8Decode_char '%' (decoded text)

theorem length_readBack_escape (ha : isHexDigit a) (hb : isHexDigit b) (text : List Char) :
    (readBack ('%' :: a :: b :: text)).length ≤ (readBack text).length + 1 := by
  obtain ⟨x, hx⟩ := Option.isSome_iff_exists.mp ha
  obtain ⟨y, hy⟩ := Option.isSome_iff_exists.mp hb
  rw [readBack, decoded_escape hx hy]
  exact length_utf8Decode_cons _ _

/-! ## The values that are read as they are -/

def HasEscape (text : List Char) : Prop :=
  ∃ a b, isHexDigit a ∧ isHexDigit b ∧ ['%', a, b] <:+: text

theorem hasEscape_cons : HasEscape (c :: text) ↔
    (c = '%' ∧ ∃ a b, isHexDigit a ∧ isHexDigit b ∧ [a, b] <+: text) ∨ HasEscape text := by
  unfold HasEscape
  simp only [List.infix_cons_iff, List.cons_prefix_cons]
  constructor
  · rintro ⟨a, b, ha, hb, ⟨rfl, hstart⟩ | hlater⟩
    · exact .inl ⟨rfl, a, b, ha, hb, hstart⟩
    · exact .inr ⟨a, b, ha, hb, hlater⟩
  · rintro (⟨rfl, a, b, ha, hb, hstart⟩ | ⟨a, b, ha, hb, hlater⟩)
    · exact ⟨a, b, ha, hb, .inl ⟨rfl, hstart⟩⟩
    · exact ⟨a, b, ha, hb, .inr hlater⟩

theorem not_hasEscape_nil : ¬ HasEscape [] := by
  rintro ⟨a, b, -, -, hpart⟩
  exact absurd (List.infix_nil.mp hpart) (List.cons_ne_nil _ _)

/-- Reading never makes a text longer, and an escape makes it shorter. -/
theorem length_readBack (n : ℕ) : ∀ text : List Char, text.length ≤ n →
    (readBack text).length ≤ text.length ∧
      (HasEscape text → (readBack text).length < text.length) := by
  induction n with
  | zero =>
    intro text hn
    rw [List.length_eq_zero_iff.mp (Nat.le_zero.mp hn)]
    exact ⟨Nat.le_refl _, fun h => absurd h not_hasEscape_nil⟩
  | succ n ih =>
    rintro (_ | ⟨c, text⟩) hn
    · exact ⟨Nat.le_refl _, fun h => absurd h not_hasEscape_nil⟩
    have hrest := ih text (Nat.le_of_succ_le_succ hn)
    by_cases hstart : c = '%' ∧ ∃ a b, isHexDigit a ∧ isHexDigit b ∧ [a, b] <+: text
    · obtain ⟨rfl, a, b, ha, hb, text, rfl⟩ := hstart
      have hescape := length_readBack_escape ha hb text
      have hlater := (ih text (by simp at hn; omega)).1
      simp only [List.cons_append, List.nil_append, List.length_cons]
      omega
    · have hread : (readBack (c :: text)).length = (readBack text).length + 1 := by
        by_cases hpercent : c = '%'
        · subst hpercent
          rw [readBack_percent fun a b ha hb h => hstart ⟨rfl, a, b, ha, hb, h⟩, List.length_cons]
        · rw [readBack_cons hpercent, List.length_cons]
      rw [hread, List.length_cons, hasEscape_cons, or_iff_right hstart]
      exact ⟨Nat.succ_le_succ hrest.1, fun h => Nat.succ_lt_succ (hrest.2 h)⟩

theorem readBack_of_not_hasEscape (h : ¬ HasEscape text) :
    readBack text = text.map plusAsSpace := by
  induction text with
  | nil => rfl
  | cons c text ih =>
    rw [hasEscape_cons, not_or] at h
    rw [List.map_cons, ← ih h.2]
    by_cases hpercent : c = '%'
    · subst hpercent
      exact readBack_percent fun a b ha hb hstart => h.1 ⟨rfl, a, b, ha, hb, hstart⟩
    · exact readBack_cons hpercent text

theorem plusAsSpace_eq_iff : plusAsSpace c = c ↔ c ≠ '+' := by
  unfold plusAsSpace
  split
  · next hplus =>
    subst hplus
    decide
  · next hplus => exact ⟨fun _ => hplus, fun _ => rfl⟩

theorem map_plusAsSpace_iff : text.map plusAsSpace = text ↔ ∀ c ∈ text, c ≠ '+' := by
  induction text with
  | nil => exact ⟨fun _ => List.forall_mem_nil _, fun _ => rfl⟩
  | cons c text ih => rw [List.map_cons, List.cons.injEq, plusAsSpace_eq_iff, ih, List.forall_mem_cons]

theorem readBack_eq_iff : readBack text = text ↔ ¬ HasEscape text ∧ ∀ c ∈ text, c ≠ '+' := by
  constructor
  · intro h
    have hescape : ¬ HasEscape text := fun hescape => by
      have hlt := (length_readBack text.length text (Nat.le_refl _)).2 hescape
      rw [h] at hlt
      exact absurd hlt (Nat.lt_irrefl _)
    rw [readBack_of_not_hasEscape hescape, map_plusAsSpace_iff] at h
    exact ⟨hescape, h⟩
  · rintro ⟨hescape, hplus⟩
    rw [readBack_of_not_hasEscape hescape, map_plusAsSpace_iff]
    exact hplus

/-- A value that needs no encoding. -/
structure Plain (text : List Char) : Prop where
  separators : ∀ c ∈ text, c ≠ '&' ∧ c ≠ '?' ∧ c ≠ '+' ∧ isTabOrNewline c = false
  escapes : ¬ HasEscape text

/-- What is found of a value in front of the next ampersand or question mark. -/
def cut (text : List Char) : List Char :=
  ((text.filter (!isTabOrNewline ·)).takeWhile (· ≠ '?')).takeWhile (· ≠ '&')

theorem cut_sublist (text : List Char) : List.Sublist (cut text) text :=
  ((List.takeWhile_sublist _).trans (List.takeWhile_sublist _)).trans List.filter_sublist

theorem cut_eq_iff : cut text = text ↔
    ∀ c ∈ text, c ≠ '&' ∧ c ≠ '?' ∧ isTabOrNewline c = false := by
  constructor
  · intro h c hc
    rw [← h] at hc
    have hinner := (List.takeWhile_sublist _).subset hc
    have hamp := List.mem_takeWhile_imp hc
    have hquestion := List.mem_takeWhile_imp hinner
    have hfilter := (List.mem_filter.mp ((List.takeWhile_sublist _).subset hinner)).2
    exact ⟨by simpa using hamp, by simpa using hquestion, by simpa using hfilter⟩
  · intro h
    have hfilter : text.filter (!isTabOrNewline ·) = text :=
      List.filter_eq_self.mpr fun c hc => by rw [(h c hc).2.2]; rfl
    rw [cut, hfilter, List.takeWhile_eq_self_iff.mpr fun c hc => decide_eq_true (h c hc).2.1,
      List.takeWhile_eq_self_iff.mpr fun c hc => decide_eq_true (h c hc).1]

theorem plain_iff : Plain text ↔ cut text = text ∧ readBack text = text := by
  rw [cut_eq_iff, readBack_eq_iff]
  constructor
  · rintro ⟨hseparators, hescapes⟩
    exact ⟨fun c hc => ⟨(hseparators c hc).1, (hseparators c hc).2.1, (hseparators c hc).2.2.2⟩, hescapes,
      fun c hc => (hseparators c hc).2.2.1⟩
  · rintro ⟨hcut, hescapes, hplus⟩
    exact ⟨fun c hc => ⟨(hcut c hc).1, (hcut c hc).2.1, hplus c hc, (hcut c hc).2.2⟩, hescapes⟩

/-- What is left of a part of a value is the value only when the part is all of it. -/
theorem readBack_cut_eq_iff {part : List Char} (hpart : List.Sublist part text) :
    readBack (cut part) = text ↔ part = text ∧ Plain text := by
  rw [plain_iff]
  constructor
  · intro h
    have hread := (length_readBack _ (cut part) (Nat.le_refl _)).1
    rw [h] at hread
    have hcut := (cut_sublist part).length_le
    have hlength := hpart.length_le
    obtain rfl := hpart.eq_of_length (by omega)
    have hall := (cut_sublist part).eq_of_length (by omega)
    exact ⟨rfl, hall, by rwa [hall] at h⟩
  · rintro ⟨rfl, hcut, hread⟩
    rw [hcut, hread]

end UrlEncoding
