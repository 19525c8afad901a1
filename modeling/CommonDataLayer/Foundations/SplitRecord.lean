import Mathlib.Order.Nat

/-! # Records in two parts

The two parts of a record are written one after the other and read one after the other, and nothing
keeps the writes and the reads apart.

* `InForce r pair`: the record had this pair after some number of its updates.
* `Step r r'`: one write, where an update sets the first part only when no other one is between its
  two writes.
* `Sound r`: after the updates so far the record has the last pair.
* `Seen r a n`: what is known to a reader that has read `a` after `n` updates had set the first part.
* `Seen.inForce`: if as many updates have set the second part when it reads that, its pair was in
  force.
-/
set_option autoImplicit false

@[ext] structure SplitRecord (α β : Type) where
  first : Option α
  second : Option β
  /-- The pair before all updates. -/
  initial : Option (α × β)
  /-- How many updates have set the first part. -/
  begun : ℕ
  /-- The pairs of the updates that have set both parts. -/
  done : List (α × β)

namespace SplitRecord
variable {α β : Type} (r : SplitRecord α β)

def pair : Option (α × β) := r.first.bind fun a => r.second.map fun b => (a, b)

/-- The pair after the first `n` updates. -/
def after (n : ℕ) : Option (α × β) := (r.done.take n).getLast?.or r.initial

def InForce (pair : α × β) : Prop := ∃ n ≤ r.done.length, r.after n = some pair

instance [DecidableEq α] [DecidableEq β] : DecidablePred r.InForce := fun pair =>
  inferInstanceAs <| Decidable (∃ n ≤ r.done.length, r.after n = some pair)

def setFirst (a : α) : SplitRecord α β := { r with first := some a, begun := r.begun + 1 }

/-- The second write of an update whose first one has set `a`. -/
def setSecond (a : α) (b : β) : SplitRecord α β :=
  { r with second := some b, done := r.done ++ [(a, b)] }

inductive Step (r : SplitRecord α β) : SplitRecord α β → Prop where
  | stay : Step r r
  | setFirst (hnone : r.begun = r.done.length) (a : α) : Step r (r.setFirst a)
  | setSecond {a : α} (hfirst : r.first = some a) (b : β) : Step r (r.setSecond a b)

structure Sound : Prop where
  begun_le : r.begun ≤ r.done.length + 1
  complete : r.begun = r.done.length → r.pair = r.after r.done.length

structure Seen (a : α) (n : ℕ) : Prop where
  le_begun : n ≤ r.begun
  /-- The update that has set `a` has not set the second part yet. -/
  ahead : r.done.length < n → r.first = some a
  level : n = r.done.length → ∀ b, r.second = some b → r.InForce (a, b)

variable {r} {r' : SplitRecord α β} {a a' : α} {b : β} {n : ℕ}

theorem InForce.setSecond {pair : α × β} (h : r.InForce pair) (a : α) (b : β) :
    (r.setSecond a b).InForce pair := by
  obtain ⟨n, hn, hafter⟩ := h
  have hlength : n ≤ (r.done ++ [(a, b)]).length := by
    rw [List.length_append]
    exact hn.trans (Nat.le_add_right _ _)
  refine ⟨n, hlength, ?_⟩
  rw [after, SplitRecord.setSecond, List.take_append_of_le_length hn]
  exact hafter

theorem after_setSecond (a : α) (b : β) :
    (r.setSecond a b).after (r.setSecond a b).done.length = some (a, b) := by
  rw [after, List.take_length, SplitRecord.setSecond, List.getLast?_concat]
  rfl

theorem inForce_setSecond (a : α) (b : β) : (r.setSecond a b).InForce (a, b) :=
  ⟨_, le_rfl, after_setSecond a b⟩

theorem InForce.step {pair : α × β} (h : r.InForce pair) (hstep : r.Step r') : r'.InForce pair := by
  cases hstep with
  | stay => exact h
  | setFirst _ _ => exact h
  | setSecond _ b => exact h.setSecond _ b

/-! ## Updates -/

theorem Sound.setFirst (hnone : r.begun = r.done.length) (a : α) : (r.setFirst a).Sound where
  begun_le := Nat.add_le_add_right hnone.le 1
  complete heq := by
    have heq : r.begun + 1 = r.done.length := heq
    omega

theorem Sound.setSecond (h : r.Sound) (hfirst : r.first = some a) (b : β) :
    (r.setSecond a b).Sound where
  begun_le := by
    have hle : r.begun ≤ r.done.length + 1 := h.begun_le
    simp only [SplitRecord.setSecond, List.length_append, List.length_singleton]
    omega
  complete _ := by
    rw [after_setSecond, pair, SplitRecord.setSecond, hfirst]
    rfl

theorem Sound.step (h : r.Sound) (hstep : r.Step r') : r'.Sound := by
  cases hstep with
  | stay => exact h
  | setFirst hnone a => exact .setFirst hnone a
  | setSecond hfirst b => exact h.setSecond hfirst b

/-- While an update is between its two writes, the first part stays. -/
theorem Step.first_eq (hstep : r.Step r') (hopen : r.begun ≠ r.done.length) : r'.first = r.first := by
  cases hstep with
  | stay => rfl
  | setFirst hnone _ => exact absurd hnone hopen
  | setSecond _ _ => rfl

/-! ## A reader -/

theorem seen_of_read (h : r.Sound) (hfirst : r.first = some a) : r.Seen a r.begun where
  le_begun := le_rfl
  ahead _ := hfirst
  level hlevel b hsecond := by
    refine ⟨_, le_rfl, ?_⟩
    rw [← h.complete hlevel, pair, hfirst, hsecond]
    rfl

theorem Seen.setFirst (h : r.Seen a n) (hnone : r.begun = r.done.length) (a' : α) :
    (r.setFirst a').Seen a n where
  le_begun := h.le_begun.trans (Nat.le_succ _)
  ahead hlt := absurd (h.le_begun.trans hnone.le) (Nat.not_le.mpr hlt)
  level := h.level

theorem Seen.setSecond (h : r.Seen a n) (hsound : r.Sound) (hfirst : r.first = some a') (b : β) :
    (r.setSecond a' b).Seen a n where
  le_begun := h.le_begun
  ahead hlt := by
    have hle : n ≤ r.done.length + 1 := h.le_begun.trans hsound.begun_le
    simp only [SplitRecord.setSecond, List.length_append, List.length_singleton] at hlt
    omega
  level hlevel b' hsecond := by
    simp only [SplitRecord.setSecond, List.length_append, List.length_singleton] at hlevel
    have ha : r.first = some a := h.ahead (by omega)
    rw [hfirst, Option.some.injEq] at ha
    have hb : some b = some b' := hsecond
    rw [Option.some.injEq] at hb
    subst ha hb
    exact inForce_setSecond a' b

theorem Seen.step (h : r.Seen a n) (hsound : r.Sound) (hstep : r.Step r') : r'.Seen a n := by
  cases hstep with
  | stay => exact h
  | setFirst hnone a' => exact h.setFirst hnone a'
  | setSecond hfirst b => exact h.setSecond hsound hfirst b

theorem Seen.inForce (h : r.Seen a n) (hlevel : n = r.done.length) (hsecond : r.second = some b) :
    r.InForce (a, b) :=
  h.level hlevel b hsecond

end SplitRecord
