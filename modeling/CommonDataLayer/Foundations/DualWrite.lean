import Mathlib.Data.List.Basic
import Mathlib.Data.List.Nodup

/-! # Two logs that are written one after the other

An item is first applied and later emitted, and other items are applied and emitted in between.
Items with a common key are to be emitted in the order in which they were applied.

* `InOrder keys s`: for every key, the emitted items are a sublist of the applied ones.
* `Serial keys s`: no item with a key of a waiting one was applied after it. It is kept by every
  emission (`Serial.emit`) and by the application of an item that overlaps no waiting one
  (`Serial.apply`), and implies the order.
* `not_inOrder_overtaken`: an item that is applied while another one with the same key waits can
  overtake it.
-/
namespace DualWrite
set_option autoImplicit false

variable {α K : Type}

structure Logs (α : Type) where
  applied : List α
  emitted : List α

namespace Logs

def empty : Logs α := { applied := [], emitted := [] }

def apply (s : Logs α) (a : α) : Logs α := { s with applied := s.applied ++ [a] }

def emit (s : Logs α) (a : α) : Logs α := { s with emitted := s.emitted ++ [a] }

end Logs

/-- Applied and not emitted yet. -/
def Waiting (s : Logs α) (a : α) : Prop := a ∈ s.applied ∧ a ∉ s.emitted

variable (keys : α → List K)

/-- The items have a key in common. -/
def Related (a b : α) : Prop := ∃ k, k ∈ keys a ∧ k ∈ keys b

/-- An item is applied while a related one waits. -/
def Overlaps (s : Logs α) (a : α) : Prop := ∃ b, Waiting s b ∧ Related keys b a

variable [DecidableEq K]

def withKey (k : K) (items : List α) : List α := items.filter fun a => k ∈ keys a

def InOrder (s : Logs α) : Prop :=
  ∀ k, (withKey keys k s.emitted).Sublist (withKey keys k s.applied)

structure Serial (s : Logs α) : Prop where
  inOrder : InOrder keys s
  subset : ∀ a ∈ s.emitted, a ∈ s.applied
  /-- Nothing related was applied after a waiting item. -/
  last : ∀ a, Waiting s a →
    ∃ before after, s.applied = before ++ a :: after ∧ ∀ b ∈ after, ¬ Related keys a b

variable {keys} {s : Logs α}

theorem Serial.empty : Serial keys (Logs.empty : Logs α) where
  inOrder _ := List.Sublist.refl _
  subset _ h := by cases h
  last _ h := by cases h.1

theorem withKey_append (k : K) (first second : List α) :
    withKey keys k (first ++ second) = withKey keys k first ++ withKey keys k second :=
  List.filter_append _ _

theorem Serial.apply (h : Serial keys s) {a : α}
    (hclear : ¬ Overlaps keys s a) : Serial keys (s.apply a) where
  inOrder k := by
    rw [Logs.apply, withKey_append]
    exact (h.inOrder k).trans (List.sublist_append_left _ _)
  subset b hb := List.mem_append_left _ (h.subset b hb)
  last b hb := by
    rcases List.mem_append.mp hb.1 with hmem | hmem
    · obtain ⟨before, after, happlied, hafter⟩ := h.last b ⟨hmem, hb.2⟩
      refine ⟨before, after ++ [a], by simp [Logs.apply, happlied], fun c hc => ?_⟩
      rcases List.mem_append.mp hc with hc | hc
      · exact hafter c hc
      · rw [List.mem_singleton.mp hc]
        exact fun hrelated => hclear ⟨b, ⟨hmem, hb.2⟩, hrelated⟩
    · rw [List.mem_singleton.mp hmem]
      exact ⟨s.applied, [], rfl, fun c hc => by cases hc⟩

theorem sublist_of_not_mem_last {l l' : List α} {a : α} (h : l.Sublist (l' ++ [a])) (ha : a ∉ l) :
    l.Sublist l' := by
  obtain ⟨first, second, rfl, hfirst, hsecond⟩ := List.sublist_append_iff.mp h
  cases hsecond with
  | cons _ hnil => rw [List.sublist_nil.mp hnil, List.append_nil]; exact hfirst
  | cons_cons _ hnil => exact absurd (List.mem_append_right _ List.mem_cons_self) ha

theorem Serial.emit (h : Serial keys s) {a : α} (ha : Waiting s a) : Serial keys (s.emit a) where
  inOrder k := by
    rw [Logs.emit, withKey_append]
    by_cases hk : k ∈ keys a
    · obtain ⟨before, after, happlied, hafter⟩ := h.last a ha
      have hnone : withKey keys k after = [] := List.filter_eq_nil_iff.mpr fun b hb hkb =>
        hafter b hb ⟨k, hk, of_decide_eq_true hkb⟩
      have hsplit : withKey keys k s.applied = withKey keys k before ++ [a] := by
        rw [happlied, withKey_append, withKey, withKey, List.filter_cons, if_pos (by simpa using hk)]
        exact congrArg _ (congrArg _ hnone)
      have hold := h.inOrder k
      rw [hsplit] at hold
      have hsingle : withKey keys k [a] = [a] := by simp [withKey, hk]
      rw [hsplit, hsingle]
      have hnot : a ∉ withKey keys k s.emitted := fun hmem => ha.2 (List.mem_filter.mp hmem).1
      exact (sublist_of_not_mem_last hold hnot).append (List.Sublist.refl [a])
    · have hsingle : withKey keys k [a] = [] := by simp [withKey, hk]
      rw [hsingle, List.append_nil]
      exact h.inOrder k
  subset b hb := by
    rcases List.mem_append.mp hb with hb | hb
    · exact h.subset b hb
    · exact List.mem_singleton.mp hb ▸ ha.1
  last b hb := h.last b ⟨hb.1, fun hmem => hb.2 (List.mem_append_left _ hmem)⟩

/-- An item that is applied while a related one waits, and then emitted before it. -/
theorem not_inOrder_overtaken {a b : α} (hnew : a ∉ s.applied) (hb : b ∈ s.applied)
    (hrelated : Related keys b a) : ¬ InOrder keys (((s.apply a).emit a).emit b) := by
  intro h
  obtain ⟨k, hkb, hka⟩ := hrelated
  have hne : a ≠ b := fun heq => hnew (heq ▸ hb)
  have hpair : [a, b].Sublist (s.applied ++ [a]) := by
    have hlast : withKey keys k (s.emitted ++ [a] ++ [b]) = withKey keys k s.emitted ++ [a, b] := by
      simp [withKey, hka, hkb]
    have hk := h k
    rw [show (((s.apply a).emit a).emit b).emitted = s.emitted ++ [a] ++ [b] from rfl, hlast] at hk
    exact ((List.sublist_append_right _ _).trans hk).trans List.filter_sublist
  have hnot : a ∉ [b] := fun hmem => hne (List.mem_singleton.mp hmem)
  obtain ⟨first, second, heq, hfirst, hsecond⟩ := List.sublist_append_iff.mp hpair
  cases first with
  | nil =>
    rw [List.nil_append] at heq
    have hlength := heq ▸ hsecond.length_le
    simp at hlength
  | cons x first =>
    rw [List.cons_append, List.cons.injEq] at heq
    exact hnew (hfirst.subset (heq.1 ▸ List.mem_cons_self))

end DualWrite
