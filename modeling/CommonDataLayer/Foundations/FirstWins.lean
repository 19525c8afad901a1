import Mathlib.Data.List.Induction
import Mathlib.Data.List.Nodup

/-! # Stores that keep the first record of each key

A record is put into the store unless its key is taken. Records can come in any order and more than
once.

* `mem_firstWins`: of records with different keys all are stored.
* `SameRecords`, `firstWins_iff`: what is stored depends only on which records came, exactly if no two
  of them have one key.
-/
namespace FirstWins
set_option autoImplicit false

variable {α κ : Type} [DecidableEq κ] (key : α → κ)

def insert (stored : List α) (record : α) : List α :=
  if key record ∈ stored.map key then stored else stored ++ [record]

/-- What is stored after the records came in this order. -/
def firstWins (records : List α) : List α := records.foldl (insert key) []

/-- The lists have the same records, in any order and each any number of times. -/
def SameRecords (records records' : List α) : Prop := ∀ a, a ∈ records ↔ a ∈ records'

/-- No two of the records have one key. -/
def OneOfEach (records : List α) : Prop := ∀ a ∈ records, ∀ b ∈ records, key a = key b → a = b

theorem SameRecords.cons {records : List α} {a : α} (ha : a ∈ records) :
    SameRecords (a :: records) records := fun b => by
  rw [List.mem_cons, or_iff_right_of_imp]
  rintro rfl
  exact ha

variable {key} {records : List α}

theorem firstWins_concat (records : List α) (last : α) :
    firstWins key (records ++ [last]) = insert key (firstWins key records) last := by
  rw [firstWins, List.foldl_append]
  rfl

theorem mem_of_mem_firstWins {a : α} (ha : a ∈ firstWins key records) : a ∈ records := by
  induction records using List.reverseRecOn with
  | nil => exact ha
  | append_singleton records last ih =>
    rw [firstWins_concat, insert] at ha
    split at ha
    · exact List.mem_append_left _ (ih ha)
    · exact (List.mem_append.mp ha).elim (fun h => List.mem_append_left _ (ih h)) (List.mem_append_right _)

theorem nodup_firstWins : ((firstWins key records).map key).Nodup := by
  induction records using List.reverseRecOn with
  | nil => exact .nil
  | append_singleton records last ih =>
    rw [firstWins_concat, insert]
    split
    · exact ih
    · rename_i hfree
      rw [List.map_append, List.map_singleton]
      exact ih.append (List.nodup_singleton _) (List.disjoint_singleton.mpr hfree)

/-- What is stored stays. -/
theorem subset_foldl_insert (stored : List α) : stored ⊆ records.foldl (insert key) stored := by
  induction records generalizing stored with
  | nil => exact List.Subset.refl _
  | cons first records ih =>
    refine List.Subset.trans ?_ (ih (insert key stored first))
    rw [insert]
    split
    · exact List.Subset.refl _
    · exact List.subset_append_left _ _

theorem mem_firstWins_cons (first : α) : first ∈ firstWins key (first :: records) :=
  subset_foldl_insert [first] (List.mem_singleton_self first)

/-- The key of every record is taken. -/
theorem exists_mem_firstWins {a : α} (ha : a ∈ records) : ∃ b ∈ firstWins key records, key b = key a := by
  induction records using List.reverseRecOn with
  | nil => cases ha
  | append_singleton records last ih =>
    rw [firstWins_concat, insert]
    rcases List.mem_append.mp ha with ha | ha
    · obtain ⟨b, hb, hkey⟩ := ih ha
      refine ⟨b, ?_, hkey⟩
      split
      · exact hb
      · exact List.mem_append_left _ hb
    · rw [List.mem_singleton.mp ha]
      split
      · exact List.mem_map.mp ‹_›
      · exact ⟨last, List.mem_append_right _ (List.mem_singleton_self last), rfl⟩

theorem mem_firstWins (hone : OneOfEach key records) {a : α} : a ∈ firstWins key records ↔ a ∈ records := by
  constructor
  · intro ha
    exact mem_of_mem_firstWins ha
  · intro ha
    obtain ⟨b, hb, hkey⟩ : ∃ b ∈ firstWins key records, key b = key a := exists_mem_firstWins ha
    rwa [← hone b (mem_of_mem_firstWins hb) a ha hkey]

/-- **What is stored does not depend on how the records come, exactly if no two have one key.** -/
theorem firstWins_iff : (∀ first second, SameRecords first records → SameRecords second records →
    SameRecords (firstWins key first) (firstWins key second)) ↔ OneOfEach key records := by
  constructor
  · intro hsame a ha b hb hkey
    have hboth := (hsame _ _ (.cons ha) (.cons hb) a).mp (mem_firstWins_cons a)
    exact List.inj_on_of_nodup_map nodup_firstWins hboth (mem_firstWins_cons b) hkey
  · intro hone first second hfirst hsecond a
    have hstored {records' : List α} (h : SameRecords records' records) :
        a ∈ firstWins key records' ↔ a ∈ records :=
      (mem_firstWins fun a ha b hb => hone a ((h a).mp ha) b ((h b).mp hb)).trans (h a)
    rw [hstored hfirst, hstored hsecond]

end FirstWins
