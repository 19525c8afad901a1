import Mathlib.Data.List.TakeWhile
import Mathlib.Order.Lattice

/-! # Cumulative acknowledgements

Items with increasing keys are acknowledged one by one, in any order; a single number says how far.

* `ackedPrefix`: the longest prefix of the items whose members are all acknowledged.
* `waiting`: the items that are not acknowledged yet.
* `covered`: the items up to a mark, if there is one.
* `readFrom`: the items of a log from a mark on.

With an item waiting, the prefix consists of the items before the first one that waits
(`ackedPrefix_of_waiting`); with none it consists of all items (`ackedPrefix_eq_self`).
-/
namespace Acknowledgement
set_option autoImplicit false

variable {K : Type} [LinearOrder K]

def ackedPrefix (acked added : List K) : List K := added.takeWhile (· ∈ acked)

def waiting (acked added : List K) : List K := added.filter (· ∉ acked)

def covered (mark : Option K) (added : List K) : List K :=
  match mark with
  | none => []
  | some mark => added.filter (· ≤ mark)

variable {acked added : List K} {mark next : K}

theorem mem_waiting {x : K} : x ∈ waiting acked added ↔ x ∈ added ∧ x ∉ acked := by
  simp [waiting]

theorem acked_of_mem_ackedPrefix {x : K} (h : x ∈ ackedPrefix acked added) : x ∈ acked := by
  simpa using List.mem_takeWhile_imp h

theorem mem_covered {stored : Option K} {x : K} :
    x ∈ covered stored added ↔ x ∈ added ∧ ∃ mark ∈ stored, x ≤ mark := by
  cases stored <;> simp [covered]

/-- The items split at the first one that waits. -/
theorem split_of_waiting (hnext : (waiting acked added).head? = some next) :
    ∃ rest, added = ackedPrefix acked added ++ next :: rest ∧ next ∉ acked := by
  induction added with
  | nil => simp [waiting] at hnext
  | cons first added ih =>
    by_cases hfirst : first ∈ acked
    · have hrest : (waiting acked added).head? = some next := by
        simpa [waiting, hfirst] using hnext
      obtain ⟨rest, hsplit, hnot⟩ := ih hrest
      refine ⟨rest, ?_, hnot⟩
      simp only [ackedPrefix, List.takeWhile_cons, hfirst, decide_true, if_true, List.cons_append]
      exact congrArg (first :: ·) hsplit
    · have heq : first = next := by simpa [waiting, hfirst] using hnext
      subst heq
      exact ⟨added, by simp [ackedPrefix, hfirst], hfirst⟩

theorem ackedPrefix_of_waiting (hsorted : added.Pairwise (· < ·))
    (hnext : (waiting acked added).head? = some next) :
    ackedPrefix acked added = added.filter (· < next) := by
  obtain ⟨rest, hsplit, -⟩ := split_of_waiting hnext
  rw [hsplit, List.pairwise_append, List.pairwise_cons] at hsorted
  obtain ⟨-, ⟨hrest, -⟩, hbefore⟩ := hsorted
  have hlow : (ackedPrefix acked added).filter (· < next) = ackedPrefix acked added :=
    List.filter_eq_self.mpr fun x hx => by simpa using hbefore x hx next List.mem_cons_self
  have hhigh : rest.filter (· < next) = [] :=
    List.filter_eq_nil_iff.mpr fun x hx => by simpa using (hrest x hx).le
  have hfilter : (ackedPrefix acked added ++ next :: rest).filter (· < next) =
      ackedPrefix acked added := by
    simp [List.filter_append, hlow, hhigh]
  rw [← hsplit] at hfilter
  exact hfilter.symm

theorem ackedPrefix_eq_self (h : ∀ x ∈ added, x ∈ acked) : ackedPrefix acked added = added :=
  List.takeWhile_eq_self_iff.mpr (by simpa using h)

theorem waiting_eq_nil : waiting acked added = [] ↔ ∀ x ∈ added, x ∈ acked := by
  simp [waiting]

/-- An item that was not acknowledged before it is added does not lengthen the prefix. -/
theorem ackedPrefix_append {new : K} (hnew : new ∉ acked) :
    ackedPrefix acked (added ++ [new]) = ackedPrefix acked added := by
  rw [ackedPrefix, List.takeWhile_append]
  split
  · rename_i hall
    have hself := List.IsPrefix.eq_of_length (List.takeWhile_prefix _) hall
    simpa [ackedPrefix, hnew] using hself.symm
  · rfl

/-- Acknowledging an item that is not the first one to wait. -/
theorem ackedPrefix_cons {x : K} (hsorted : added.Pairwise (· < ·))
    (hnext : (waiting acked added).head? = some next) (hne : x ≠ next) :
    ackedPrefix (x :: acked) added = ackedPrefix acked added := by
  obtain ⟨rest, hsplit, hnot⟩ := split_of_waiting hnext
  have hfirst : (waiting (x :: acked) added).head? = some next := by
    have hprefix : (ackedPrefix acked added).filter (· ∉ x :: acked) = [] :=
      List.filter_eq_nil_iff.mpr fun y hy => by simp [acked_of_mem_ackedPrefix hy]
    rw [waiting, hsplit, List.filter_append, hprefix]
    simp [hnot, hne.symm]
  rw [ackedPrefix_of_waiting hsorted hfirst, ackedPrefix_of_waiting hsorted hnext]

/-- Acknowledging the first item that waits takes it into the prefix. -/
theorem mem_ackedPrefix_of_waiting (hnext : (waiting acked added).head? = some next) :
    next ∈ ackedPrefix (next :: acked) added := by
  obtain ⟨rest, hsplit, -⟩ := split_of_waiting hnext
  have hfront : ∀ x ∈ ackedPrefix acked added, decide (x ∈ next :: acked) = true := by
    intro x hx
    simp [acked_of_mem_ackedPrefix hx]
  rw [hsplit, ackedPrefix, List.takeWhile_append_of_pos hfront]
  simp

theorem covered_append {stored : Option K} {new : K} (h : ∀ mark ∈ stored, mark < new) :
    covered stored (added ++ [new]) = covered stored added := by
  cases stored with
  | none => rfl
  | some mark => simp [covered, h mark rfl]

theorem covered_eq_self (h : ∀ x ∈ added, x ≤ mark) : covered (some mark) added = added :=
  List.filter_eq_self.mpr (by simpa using h)

/-- A log read again from a mark on. -/
def readFrom (mark : Option K) (log : List K) : List K :=
  match mark with
  | none => log
  | some mark => log.dropWhile (· < mark)

/-- Reading from a mark between the last item of the front and the rest. -/
theorem readFrom_append_iff {front rest : List K} {last : K} (hfront : ∀ x ∈ front, x < last)
    (hlast : last ≤ mark) (hrest : ∀ x ∈ rest, mark ≤ x) :
    readFrom (some mark) (front ++ last :: rest) = rest ↔ last < mark := by
  have hbefore : ∀ x ∈ front, decide (x < mark) = true := fun x hx =>
    decide_eq_true ((hfront x hx).trans_le hlast)
  rw [readFrom, List.dropWhile_append_of_pos hbefore]
  by_cases hlt : last < mark
  · cases rest with
    | nil => simp [hlt]
    | cons next rest => simp [hlt, hrest next List.mem_cons_self]
  · simp [hlt]

end Acknowledgement
