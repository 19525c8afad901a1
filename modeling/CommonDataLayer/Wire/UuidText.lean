import Mathlib.Algebra.Group.Nat.Defs
import CommonDataLayer.Wire.Values

/-! # The texts of identifiers

`Uuid::to_string` gives 32 hexadecimal digits and 4 hyphens, so different identifiers have different
texts, and no text starts with another one.
-/
namespace CommonDataLayer.Uuid
set_option autoImplicit false

theorem hexDigits_length (n x : ℕ) : (hexDigits n x).length = n := by
  induction n generalizing x with
  | zero => rfl
  | succ n ih => rw [hexDigits, List.length_append, ih, List.length_singleton]

theorem digitChar_injective {a b : ℕ} (ha : a < 16) (hb : b < 16)
    (h : Nat.digitChar a = Nat.digitChar b) : a = b := by
  have hall : ∀ a < 16, ∀ b < 16, Nat.digitChar a = Nat.digitChar b → a = b := by decide
  exact hall a ha b hb h

theorem hexDigits_injective {n x y : ℕ} (hx : x < 16 ^ n) (hy : y < 16 ^ n)
    (h : hexDigits n x = hexDigits n y) : x = y := by
  induction n generalizing x y with
  | zero => omega
  | succ n ih =>
    have hlength : (hexDigits n (x / 16)).length = (hexDigits n (y / 16)).length := by
      rw [hexDigits_length, hexDigits_length]
    obtain ⟨hhigh, hlow⟩ := List.append_inj h hlength
    rw [Nat.pow_succ] at hx hy
    have hdiv := ih (Nat.div_lt_of_lt_mul (by omega)) (Nat.div_lt_of_lt_mul (by omega)) hhigh
    have hmod := digitChar_injective (Nat.mod_lt x (by omega)) (Nat.mod_lt y (by omega))
      (List.singleton_inj.mp hlow)
    omega

theorem mem_hexDigits {n x : ℕ} {c : Char} (h : c ∈ hexDigits n x) :
    ∃ d < 16, c = Nat.digitChar d := by
  induction n generalizing x with
  | zero => cases h
  | succ n ih =>
    rcases List.mem_append.mp h with h | h
    · exact ih h
    · exact ⟨x % 16, Nat.mod_lt x (by omega), List.mem_singleton.mp h⟩

/-- The digits of an identifier. -/
def digits (id : Uuid) : List Char := hexDigits 32 id.toNat

theorem digits_injective {a b : Uuid} (h : a.digits = b.digits) : a = b :=
  BitVec.eq_of_toNat_eq (hexDigits_injective (n := 32) a.isLt b.isLt h)

theorem toList_toText (id : Uuid) : id.toText.toList =
    id.digits.take 8 ++ '-' :: (id.digits.drop 8).take 4 ++ '-' :: (id.digits.drop 12).take 4 ++
      '-' :: (id.digits.drop 16).take 4 ++ '-' :: id.digits.drop 20 := by
  rw [toText, String.toList_ofList]
  rfl

theorem length_toText (id : Uuid) : id.toText.toList.length = 36 := by
  have hlength : id.digits.length = 32 := hexDigits_length 32 id.toNat
  rw [toList_toText]
  simp [hlength]

theorem digits_ne_hyphen {id : Uuid} {c : Char} (h : c ∈ id.digits) : c ≠ '-' := by
  obtain ⟨d, hd, rfl⟩ := mem_hexDigits h
  have hall : ∀ d < 16, Nat.digitChar d ≠ '-' := by decide
  exact hall d hd

/-- The digits are what is left without the hyphens. -/
theorem filter_toText (id : Uuid) : id.toText.toList.filter (· ≠ '-') = id.digits := by
  have hpart {part : List Char} (hsub : part.Sublist id.digits) : part.filter (· ≠ '-') = part :=
    List.filter_eq_self.mpr fun c hc => by simpa using digits_ne_hyphen (hsub.subset hc)
  have hnext (i n : ℕ) : (id.digits.drop i).take n ++ id.digits.drop (i + n) = id.digits.drop i := by
    rw [← List.drop_drop]
    exact List.take_append_drop n _
  have hmiddle (i : ℕ) : ((id.digits.drop i).take 4).filter (· ≠ '-') = (id.digits.drop i).take 4 :=
    hpart ((List.take_sublist 4 _).trans (List.drop_sublist i _))
  rw [toList_toText]
  simp only [List.filter_append, List.filter_cons, ne_eq, not_true_eq_false, decide_false,
    Bool.false_eq_true, if_false, List.append_assoc]
  rw [hpart (List.take_sublist 8 _), hmiddle 8, hmiddle 12, hmiddle 16,
    hpart (List.drop_sublist 20 _), hnext 16 4, hnext 12 4, hnext 8 4, List.take_append_drop]

theorem not_mem_toText {id : Uuid} {c : Char} (hhyphen : c ≠ '-') (hdigits : ∀ d < 16, Nat.digitChar d ≠ c) :
    c ∉ id.toText.toList := by
  intro h
  have hdigit : c ∈ id.digits := by
    rw [← filter_toText]
    exact List.mem_filter.mpr ⟨h, by simpa using hhyphen⟩
  obtain ⟨d, hd, rfl⟩ := mem_hexDigits hdigit
  exact hdigits d hd rfl

theorem toText_injective {a b : Uuid} (h : a.toText = b.toText) : a = b := by
  refine digits_injective ?_
  rw [← filter_toText, ← filter_toText, h]

/-! ## Reading a text -/

def digitValue (c : Char) : ℕ := if c.isDigit then c.toNat - '0'.toNat else c.toNat - 'a'.toNat + 10

def hexValue (digits : List Char) : ℕ := digits.foldl (fun x c => x * 16 + digitValue c) 0

theorem digitValue_digitChar {d : ℕ} (hd : d < 16) : digitValue (Nat.digitChar d) = d := by
  have hall : ∀ d < 16, digitValue (Nat.digitChar d) = d := by decide
  exact hall d hd

theorem hexValue_hexDigits {n x : ℕ} (hx : x < 16 ^ n) : hexValue (hexDigits n x) = x := by
  induction n generalizing x with
  | zero =>
    rw [Nat.pow_zero] at hx
    rw [Nat.lt_one_iff.mp hx]
    rfl
  | succ n ih =>
    rw [Nat.pow_succ] at hx
    have hhigh : hexValue (hexDigits n (x / 16)) = x / 16 := ih (Nat.div_lt_of_lt_mul (by omega))
    have hlow : digitValue (Nat.digitChar (x % 16)) = x % 16 :=
      digitValue_digitChar (Nat.mod_lt x (by omega))
    rw [hexDigits, hexValue, List.foldl_append, ← hexValue, hhigh, List.foldl_cons, List.foldl_nil, hlow]
    exact Nat.div_add_mod' x 16

/-- The identifier of a hyphenated text. -/
def ofText (text : String) : Option Uuid :=
  let id : Uuid := BitVec.ofNat 128 (hexValue (text.toList.filter (· ≠ '-')))
  if id.toText = text then some id else none

theorem ofText_toText (id : Uuid) : ofText id.toText = some id := by
  have hvalue : hexValue id.digits = id.toNat := hexValue_hexDigits (n := 32) id.isLt
  rw [ofText, filter_toText, hvalue, BitVec.ofNat_toNat, BitVec.setWidth_eq]
  exact if_pos rfl

/-- The parser of identifiers, on hyphenated texts. -/
def parse (text : String) : Except String Uuid :=
  (ofText text).elim (.error "invalid length: expected one of [36, 32]") .ok

theorem parse_toText (id : Uuid) : parse id.toText = .ok id := by
  rw [parse, ofText_toText]
  rfl

end CommonDataLayer.Uuid
