import Mathlib.Data.List.Count
import Mathlib.Data.List.Induction
import Mathlib.Data.List.Perm.Subperm

/-! # Items that come more than once, taken out one by one

Items come in any order and may repeat. An occurrence is the index of an item in the list of all
that came; whoever takes an item out names its occurrence, while the list only knows the item.

* `Taken`: the occurrences that were taken, each of them once.
* `remaining`: what is left when every taken item was taken out at its first place.
* `remaining_append`, `remaining_cons`: another item comes, another occurrence is taken.
* `mem_remaining`: an item with an occurrence that was not taken is still there.
-/
namespace Occurrences
set_option autoImplicit false

variable {α : Type} {items : List α} {taken : List ℕ} {i : ℕ} {x : α}

structure Taken (items : List α) (taken : List ℕ) : Prop where
  nodup : taken.Nodup
  exist : ∀ i ∈ taken, i < items.length

def itemsAt (items : List α) (taken : List ℕ) : List α := taken.filterMap (items[·]?)

theorem taken_nil (items : List α) : Taken items [] :=
  ⟨List.nodup_nil, fun _ h => absurd h List.not_mem_nil⟩

theorem Taken.append (h : Taken items taken) (x : α) : Taken (items ++ [x]) taken := by
  refine ⟨h.nodup, fun i hi => ?_⟩
  have hlt := h.exist i hi
  rw [List.length_append]
  omega

theorem Taken.cons (h : Taken items taken) (hi : items[i]? = some x) (hnot : i ∉ taken) :
    Taken items (i :: taken) := by
  refine ⟨List.nodup_cons.mpr ⟨hnot, h.nodup⟩, List.forall_mem_cons.mpr ⟨?_, h.exist⟩⟩
  exact (List.getElem?_eq_some_iff.mp hi).1

theorem itemsAt_cons (hi : items[i]? = some x) :
    itemsAt items (i :: taken) = x :: itemsAt items taken :=
  List.filterMap_cons_some hi

theorem itemsAt_append (h : Taken items taken) : itemsAt (items ++ [x]) taken = itemsAt items taken :=
  List.filterMap_congr fun i hi => List.getElem?_append_left (h.exist i hi)

theorem itemsAt_range (items : List α) : itemsAt items (List.range items.length) = items := by
  induction items using List.reverseRecOn with
  | nil => rfl
  | append_singleton items x ih =>
    have htaken : Taken items (List.range items.length) :=
      ⟨List.nodup_range, fun _ hi => List.mem_range.mp hi⟩
    have hlast : itemsAt (items ++ [x]) [items.length] = [x] := by simp [itemsAt]
    rw [List.length_append, List.length_singleton, List.range_succ, itemsAt, List.filterMap_append]
    exact congrArg₂ _ ((itemsAt_append htaken).trans ih) hlast

/-- Each item is taken at most as often as it came. -/
theorem Taken.subperm (h : Taken items taken) : List.Subperm (itemsAt items taken) items := by
  have hrange : List.Subperm taken (List.range items.length) :=
    h.nodup.subperm fun i hi => List.mem_range.mpr (h.exist i hi)
  obtain ⟨sorted, hperm, hsub⟩ := hrange
  have hitems : (itemsAt items sorted).Sublist (itemsAt items (List.range items.length)) :=
    hsub.filterMap _
  rw [itemsAt_range] at hitems
  exact ⟨itemsAt items sorted, hperm.filterMap _, hitems⟩

variable [DecidableEq α]

def remaining (items : List α) (taken : List ℕ) : List α := items.diff (itemsAt items taken)

theorem diff_append_of_subperm {items out : List α} (h : List.Subperm out items) (x : α) :
    (items ++ [x]).diff out = items.diff out ++ [x] := by
  induction out generalizing items with
  | nil => rfl
  | cons y out ih =>
    have hy : y ∈ items := h.subset List.mem_cons_self
    have hrest : List.Subperm out (items.erase y) := by simpa using h.erase y
    rw [List.diff_cons, List.diff_cons, List.erase_append_left _ hy, ih hrest]

theorem remaining_append (h : Taken items taken) (x : α) :
    remaining (items ++ [x]) taken = remaining items taken ++ [x] := by
  rw [remaining, itemsAt_append h, diff_append_of_subperm h.subperm, remaining]

theorem remaining_cons (hi : items[i]? = some x) :
    remaining items (i :: taken) = (remaining items taken).erase x := by
  rw [remaining, itemsAt_cons hi, List.diff_cons_right, remaining]

theorem mem_remaining (h : Taken items taken) (hi : items[i]? = some x) (hnot : i ∉ taken) :
    x ∈ remaining items taken := by
  have hcount := (h.cons hi hnot).subperm.count_le x
  rw [itemsAt_cons hi, List.count_cons_self] at hcount
  rw [remaining, ← List.count_pos_iff, List.count_diff]
  omega

end Occurrences
