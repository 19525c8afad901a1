import Mathlib.Data.List.Dedup
import Mathlib.Order.MinMax

/-! # The greatest row of every group

Rows have a key and a value from a linear order. `Greatest` is what a row is that no other row with
its key exceeds; where key and value together identify a row, every key of a row has exactly one.
Two kinds of queries find them:

* `groupMax` joined with the rows, `joinMax`;
* a comparison of each row with the maximum over the rows with its key, `correlatedMax`.
-/
namespace GroupedMax
set_option autoImplicit false

variable {ρ κ ν : Type} [DecidableEq κ] [LinearOrder ν] (key : ρ → κ) (value : ρ → ν)

structure Greatest (rows : List ρ) (row : ρ) : Prop where
  mem : row ∈ rows
  le : ∀ other ∈ rows, key other = key row → value other ≤ value row

/-- `SELECT max(value) FROM rows WHERE key = $1`. -/
def maxValue (rows : List ρ) (k : κ) : Option ν :=
  ((rows.filter fun row => key row = k).map value).max?

/-- `SELECT key, max(value) FROM rows GROUP BY key`. -/
def groupMax (rows : List ρ) : List (κ × ν) :=
  (rows.map key).dedup.filterMap fun k => (maxValue key value rows k).map fun v => (k, v)

/-- `maxes JOIN rows ON rows.key = maxes.key AND rows.value = maxes.value`. -/
def joinMax (maxes : List (κ × ν)) (rows : List ρ) : List ρ :=
  maxes.flatMap fun max => rows.filter fun row => key row = max.1 ∧ value row = max.2

/-- `SELECT * FROM rows WHERE p AND value = (SELECT max(value) FROM rows WHERE key = rows.key)`. -/
def correlatedMax (p : ρ → Bool) (rows : List ρ) : List ρ :=
  rows.filter fun row => p row ∧ maxValue key value rows (key row) = some (value row)

variable {key : ρ → κ} {value : ρ → ν} {rows : List ρ} {row : ρ} {k : κ} {v : ν}

/-! ## The maximum -/

theorem maxValue_eq_some : maxValue key value rows k = some v ↔
    (∃ row ∈ rows, key row = k ∧ value row = v) ∧ ∀ row ∈ rows, key row = k → value row ≤ v := by
  rw [maxValue, List.max?_eq_some_iff]
  refine and_congr ?_ ?_
  · simp only [List.mem_map, List.mem_filter, decide_eq_true_eq, and_assoc]
  · simp only [List.forall_mem_map, List.mem_filter, decide_eq_true_eq, and_imp]

theorem maxValue_eq_value (hrow : row ∈ rows) :
    maxValue key value rows (key row) = some (value row) ↔ Greatest key value rows row := by
  rw [maxValue_eq_some]
  exact ⟨fun h => ⟨hrow, h.2⟩, fun h => ⟨⟨row, hrow, rfl, rfl⟩, h.le⟩⟩

theorem exists_maxValue (hrow : row ∈ rows) : ∃ v, maxValue key value rows (key row) = some v := by
  refine Option.ne_none_iff_exists'.mp fun hnone => ?_
  rw [maxValue, List.max?_eq_none_iff, List.map_eq_nil_iff, List.filter_eq_nil_iff] at hnone
  exact hnone row hrow (decide_eq_true rfl)

/-- Every key of a row has a greatest row. -/
theorem exists_greatest (hrow : row ∈ rows) :
    ∃ greatest, Greatest key value rows greatest ∧ key greatest = key row := by
  obtain ⟨v, hv⟩ : ∃ v, maxValue key value rows (key row) = some v := exists_maxValue hrow
  obtain ⟨⟨greatest, hmem, hkey, rfl⟩, hle⟩ := maxValue_eq_some.mp hv
  exact ⟨greatest, ⟨hmem, fun other hother h => hle other hother (h.trans hkey)⟩, hkey⟩

omit [DecidableEq κ] in
/-- Where key and value identify a row, the greatest row of a key is the only one. -/
theorem Greatest.eq (hnodup : (rows.map fun row => (key row, value row)).Nodup) {a b : ρ}
    (ha : Greatest key value rows a) (hb : Greatest key value rows b) (hkey : key a = key b) :
    a = b := by
  have hvalue : value a = value b := le_antisymm (hb.le a ha.mem hkey) (ha.le b hb.mem hkey.symm)
  exact List.inj_on_of_nodup_map hnodup ha.mem hb.mem (Prod.ext hkey hvalue)

/-! ## The two queries -/

theorem mem_groupMax : (k, v) ∈ groupMax key value rows ↔ maxValue key value rows k = some v := by
  simp only [groupMax, List.mem_filterMap, List.mem_dedup, Option.map_eq_some_iff, Prod.mk.injEq]
  constructor
  · rintro ⟨_, _, _, hv, rfl, rfl⟩
    exact hv
  · intro hv
    obtain ⟨⟨row, hrow, hkey, -⟩, -⟩ := maxValue_eq_some.mp hv
    exact ⟨k, List.mem_map.mpr ⟨row, hrow, hkey⟩, v, hv, rfl, rfl⟩

/-- The maxima over the rows with some of the keys, joined with all rows. -/
theorem mem_joinMax {p : κ → Bool} :
    row ∈ joinMax key value (groupMax key value (rows.filter fun row => p (key row))) rows ↔
      Greatest key value rows row ∧ p (key row) = true := by
  have hmax : maxValue key value (rows.filter fun row => p (key row)) (key row) =
      some (value row) ∧ row ∈ rows ↔ Greatest key value rows row ∧ p (key row) = true := by
    rw [maxValue_eq_some]
    simp only [List.mem_filter]
    constructor
    · rintro ⟨⟨⟨other, ⟨-, hp⟩, hkey, -⟩, hle⟩, hrow⟩
      rw [hkey] at hp
      refine ⟨⟨hrow, fun other hother h => hle other ⟨hother, ?_⟩ h⟩, hp⟩
      rw [h]
      exact hp
    · rintro ⟨⟨hrow, hle⟩, hp⟩
      exact ⟨⟨⟨row, ⟨hrow, hp⟩, rfl, rfl⟩, fun other hother h => hle other hother.1 h⟩, hrow⟩
  rw [← hmax, joinMax, List.mem_flatMap, ← mem_groupMax]
  constructor
  · rintro ⟨max, hmem, hrow⟩
    obtain ⟨hrow, hon⟩ := List.mem_filter.mp hrow
    obtain ⟨hkey, hvalue⟩ := of_decide_eq_true hon
    rw [hkey, hvalue]
    exact ⟨hmem, hrow⟩
  · rintro ⟨hmem, hrow⟩
    exact ⟨_, hmem, List.mem_filter.mpr ⟨hrow, decide_eq_true ⟨rfl, rfl⟩⟩⟩

theorem mem_correlatedMax {p : ρ → Bool} :
    row ∈ correlatedMax key value p rows ↔ Greatest key value rows row ∧ p row = true := by
  rw [correlatedMax, List.mem_filter, decide_eq_true_eq]
  constructor
  · rintro ⟨hrow, hp, hmax⟩
    exact ⟨(maxValue_eq_value hrow).mp hmax, hp⟩
  · rintro ⟨hgreatest, hp⟩
    exact ⟨hgreatest.mem, hp, (maxValue_eq_value hgreatest.mem).mpr hgreatest⟩

end GroupedMax
