import Mathlib.Data.List.Basic

/-! # Separators outside quotes

A text is read symbol by symbol. A quote opens a quoted part and closes it; in a quoted part an
escape takes away the meaning of the next symbol. Separators count outside of quoted parts only.

* `Clear p`: no symbol with `p` stands outside of quotes.
* `Neutral p`: clear, and every quoted part is closed, so that reading goes on as before.
* `split`: the parts between the separators.

`split_intercalate` reads back what was joined from neutral parts. `Clear.split` says what the parts
of any text are: clear of the separator, and closed if another part follows.
-/
namespace QuotedText
set_option autoImplicit false

variable {α : Type} [DecidableEq α]

structure Quoting (α : Type) where
  quote : α
  escape : α

inductive Mode where
  | plain
  | quoted
  | escaped
  deriving DecidableEq, Repr

def Mode.next (q : Quoting α) : Mode → α → Mode
  | plain, c => if c = q.quote then quoted else plain
  | quoted, c => if c = q.quote then plain else if c = q.escape then escaped else quoted
  | escaped, _ => quoted

def scan (q : Quoting α) (mode : Mode) (text : List α) : Mode := text.foldl (Mode.next q) mode

def Clear (q : Quoting α) (p : α → Prop) : Mode → List α → Prop
  | _, [] => True
  | mode, c :: text => ¬ (mode = .plain ∧ p c) ∧ Clear q p (mode.next q c) text

instance decidableClear (q : Quoting α) (p : α → Prop) [DecidablePred p] :
    (mode : Mode) → (text : List α) → Decidable (Clear q p mode text)
  | _, [] => .isTrue trivial
  | mode, c :: text =>
    have := decidableClear q p (mode.next q c) text
    inferInstanceAs (Decidable (¬ (mode = .plain ∧ p c) ∧ Clear q p (mode.next q c) text))

structure Neutral (q : Quoting α) (p : α → Prop) (text : List α) : Prop where
  clear : Clear q p .plain text
  closed : scan q .plain text = .plain

def split (q : Quoting α) (sep : α) : Mode → List α → List (List α)
  | _, [] => [[]]
  | mode, c :: text =>
    if mode = .plain ∧ c = sep then [] :: split q sep .plain text
    else (split q sep (mode.next q c) text).modifyHead (c :: ·)

variable {q : Quoting α} {p p' : α → Prop} {mode : Mode} {text text' : List α} {sep : α}

/-! ## Clear and neutral texts -/

theorem scan_append : scan q mode (text ++ text') = scan q (scan q mode text) text' :=
  List.foldl_append

@[simp]
theorem clear_append : Clear q p mode (text ++ text') ↔
    Clear q p mode text ∧ Clear q p (scan q mode text) text' := by
  induction text generalizing mode with
  | nil => simp [Clear, scan]
  | cons c text ih =>
    simp only [List.cons_append, Clear, ih, and_assoc]
    rfl

theorem Clear.mono (h : Clear q p mode text) (hp : ∀ c, p' c → p c) : Clear q p' mode text := by
  induction text generalizing mode with
  | nil => trivial
  | cons c text ih => exact ⟨fun hc => h.1 ⟨hc.1, hp c hc.2⟩, ih h.2⟩

theorem clear_false : Clear q (fun _ => False) mode text := by
  induction text generalizing mode with
  | nil => trivial
  | cons c text ih => exact ⟨fun hc => hc.2, ih⟩

theorem Neutral.mono (h : Neutral q p text) (hp : ∀ c, p' c → p c) : Neutral q p' text :=
  ⟨h.clear.mono hp, h.closed⟩

theorem Neutral.append (h : Neutral q p text) (h' : Neutral q p text') : Neutral q p (text ++ text') where
  clear := clear_append.mpr ⟨h.clear, by rw [h.closed]; exact h'.clear⟩
  closed := by rw [scan_append, h.closed, h'.closed]

theorem neutral_nil : Neutral q p [] := ⟨trivial, rfl⟩

/-- Symbols that mean nothing outside of quotes. -/
theorem neutral_of_forall (h : ∀ c ∈ text, c ≠ q.quote ∧ ¬ p c) : Neutral q p text := by
  induction text with
  | nil => exact neutral_nil
  | cons c text ih =>
    rw [List.forall_mem_cons] at h
    obtain ⟨hclear, hclosed⟩ := ih h.2
    have hnext : Mode.next q .plain c = .plain := if_neg h.1.1
    exact ⟨⟨fun hc => h.1.2 hc.2, by rw [hnext]; exact hclear⟩, by
      rw [scan, List.foldl_cons, hnext]; exact hclosed⟩

theorem neutral_of_all [DecidablePred p] (h : text.all fun c => c ≠ q.quote ∧ ¬ p c) :
    Neutral q p text :=
  neutral_of_forall fun c hc => of_decide_eq_true (List.all_eq_true.mp h c hc)

theorem Neutral.intercalate {parts : List (List α)} (hsep : Neutral q p [sep])
    (h : ∀ part ∈ parts, Neutral q p part) : Neutral q p ([sep].intercalate parts) := by
  induction parts with
  | nil => exact neutral_nil
  | cons part parts ih =>
    rw [List.forall_mem_cons] at h
    cases parts with
    | nil => simpa using h.1
    | cons next parts =>
      rw [List.intercalate_cons_cons, List.append_assoc]
      exact h.1.append (hsep.append (ih h.2))

/-! ## Quoted parts -/

/-- What may stand between two quotes. -/
def Body (q : Quoting α) (text : List α) : Prop :=
  ∀ p : α → Prop, Clear q p .quoted text ∧ scan q .quoted text = .quoted

theorem body_nil : Body q [] := fun _ => ⟨trivial, rfl⟩

theorem Body.append (h : Body q text) (h' : Body q text') : Body q (text ++ text') := by
  intro p
  obtain ⟨hclear, hscan⟩ := h p
  obtain ⟨hclear', hscan'⟩ := h' p
  exact ⟨clear_append.mpr ⟨hclear, by rw [hscan]; exact hclear'⟩, by rw [scan_append, hscan, hscan']⟩

theorem body_of_forall (h : ∀ c ∈ text, c ≠ q.quote ∧ c ≠ q.escape) : Body q text := by
  induction text with
  | nil => exact body_nil
  | cons c text ih =>
    rw [List.forall_mem_cons] at h
    have hfirst : Body q [c] := fun p => by simp [Clear, scan, Mode.next, h.1.1, h.1.2]
    exact hfirst.append (ih h.2)

theorem body_escaped (c : α) (h : q.escape ≠ q.quote) : Body q [q.escape, c] := by
  intro p
  simp [Clear, scan, Mode.next, h]

theorem Body.flatMap {β : Type} {f : β → List α} {items : List β} (h : ∀ item ∈ items, Body q (f item)) :
    Body q (items.flatMap f) := by
  induction items with
  | nil => exact body_nil
  | cons item items ih =>
    rw [List.forall_mem_cons] at h
    rw [List.flatMap_cons]
    exact h.1.append (ih h.2)

/-- A quoted part, in a text whose separators are no quotes. -/
theorem Body.neutral (h : Body q text) (hp : ¬ p q.quote) : Neutral q p (q.quote :: text ++ [q.quote]) := by
  obtain ⟨hclear, hscan⟩ := h p
  have hopen : Mode.next q .plain q.quote = .quoted := if_pos rfl
  have hclose : Mode.next q .quoted q.quote = .plain := if_pos rfl
  constructor
  · rw [List.cons_append, Clear, clear_append, hopen, hscan]
    exact ⟨fun hc => hp hc.2, hclear, fun hc => hp hc.2, trivial⟩
  · rw [List.cons_append, scan, List.foldl_cons, hopen, ← scan, scan_append, hscan]
    exact hclose

/-! ## Splitting -/

theorem split_ne_nil (q : Quoting α) (sep : α) (mode : Mode) (text : List α) :
    split q sep mode text ≠ [] := by
  induction text generalizing mode with
  | nil => simp [split]
  | cons c text ih =>
    rw [split]
    split
    · exact List.cons_ne_nil _ _
    · obtain ⟨part, parts, hsplit⟩ := List.exists_cons_of_ne_nil (ih (mode.next q c))
      simp [hsplit]

/-- The first part ends at the first separator outside of quotes. -/
theorem split_append_sep (hclear : Clear q (· = sep) mode text) (hclosed : scan q mode text = .plain) :
    split q sep mode (text ++ sep :: text') = text :: split q sep .plain text' := by
  induction text generalizing mode with
  | nil =>
    have hmode : mode = .plain := hclosed
    simp [split, hmode]
  | cons c text ih =>
    rw [List.cons_append, split, if_neg hclear.1, ih hclear.2 hclosed, List.modifyHead_cons]

theorem split_of_clear (hclear : Clear q (· = sep) mode text) : split q sep mode text = [text] := by
  induction text generalizing mode with
  | nil => rfl
  | cons c text ih => rw [split, if_neg hclear.1, ih hclear.2, List.modifyHead_cons]

/-- What was joined from neutral parts is split into them. -/
theorem split_intercalate {parts : List (List α)} (hne : parts ≠ [])
    (h : ∀ part ∈ parts, Neutral q (· = sep) part) :
    split q sep .plain ([sep].intercalate parts) = parts := by
  induction parts with
  | nil => exact absurd rfl hne
  | cons part parts ih =>
    rw [List.forall_mem_cons] at h
    cases parts with
    | nil => simpa using split_of_clear h.1.clear
    | cons next parts =>
      rw [List.intercalate_cons_cons, List.append_assoc, List.singleton_append,
        split_append_sep h.1.clear h.1.closed, ih (List.cons_ne_nil _ _) h.2]

/-- In any text: the parts are clear of the separator, and of what the text was clear of, and the
first part is closed if another one follows. -/
theorem Clear.split (hsep : sep ≠ q.quote) {part : List α} {parts : List (List α)}
    (hclear : Clear q p mode text) (hsplit : split q sep mode text = part :: parts) :
    Clear q (fun c => p c ∨ c = sep) mode part ∧ (parts ≠ [] → scan q mode part = .plain) ∧
      ∀ other ∈ parts, Clear q (fun c => p c ∨ c = sep) .plain other := by
  induction text generalizing mode part parts with
  | nil =>
    obtain ⟨rfl, rfl⟩ := List.cons.inj hsplit
    exact ⟨trivial, fun hne => absurd rfl hne, List.forall_mem_nil _⟩
  | cons c text ih =>
    obtain ⟨hc, hrest⟩ := hclear
    obtain ⟨first, others, hfirst⟩ := List.exists_cons_of_ne_nil (split_ne_nil q sep (mode.next q c) text)
    obtain ⟨hfirstClear, hfirstClosed, hothers⟩ := ih hrest hfirst
    by_cases hcut : mode = .plain ∧ c = sep
    · obtain ⟨rfl, rfl⟩ := hcut
      have hnext : Mode.next q .plain c = .plain := if_neg hsep
      rw [hnext] at hfirst hfirstClear
      rw [QuotedText.split, if_pos ⟨rfl, rfl⟩, hfirst] at hsplit
      obtain ⟨rfl, rfl⟩ := List.cons.inj hsplit
      exact ⟨trivial, fun _ => rfl, List.forall_mem_cons.mpr ⟨hfirstClear, hothers⟩⟩
    · rw [QuotedText.split, if_neg hcut, hfirst, List.modifyHead_cons] at hsplit
      obtain ⟨rfl, rfl⟩ := List.cons.inj hsplit
      refine ⟨⟨?_, hfirstClear⟩, hfirstClosed, hothers⟩
      rintro ⟨hmode, hpc | hcsep⟩
      · exact hc ⟨hmode, hpc⟩
      · exact hcut ⟨hmode, hcsep⟩

/-- From the beginning on, all parts are alike. -/
theorem Clear.of_mem_split (hsep : sep ≠ q.quote) {part : List α} (hclear : Clear q p .plain text)
    (hpart : part ∈ QuotedText.split q sep .plain text) : Clear q (fun c => p c ∨ c = sep) .plain part := by
  obtain ⟨first, others, hsplit⟩ := List.exists_cons_of_ne_nil (split_ne_nil q sep .plain text)
  obtain ⟨hfirst, -, hothers⟩ := hclear.split hsep hsplit
  rw [hsplit] at hpart
  rcases List.mem_cons.mp hpart with rfl | hpart
  · exact hfirst
  · exact hothers part hpart

end QuotedText
