import Mathlib.Data.Finset.Max
import Mathlib.Data.List.Induction
import Mathlib.Data.List.Sort
import Mathlib.Data.List.TakeWhile
import Mathlib.Order.Defs.LinearOrder

/-! # Compacting rows while they arrive

Rows with keys arrive in any order, and from time to time all rows that are there are folded into
the one with the greatest key. `play` is what such a schedule leaves.

* `play_of_not_late`: if no row comes `Late`, below one that was already folded with others, the
  schedule ends with the fold over all rows in key order, whatever the operation is.
* `exists_play_ne`: otherwise, for an operation that is neither commutative nor associative, there
  are rows for which it ends with something else.
-/
namespace Compaction
set_option autoImplicit false
set_option linter.unusedSectionVars false

variable {K D : Type}

/-- `fold_first`. -/
def foldFirst (merge : D → D → D) : List D → Option D
  | [] => none
  | first :: rest => some (rest.foldl merge first)

/-- All rows become one, with the last key. -/
def compact (merge : D → D → D) (rows : List (K × D)) : List (K × D) :=
  match rows.getLast?, foldFirst merge (rows.map (·.2)) with
  | some last, some value => [(last.1, value)]
  | _, _ => []

/-- A row among rows in key order. -/
def insertRow [LinearOrder K] (row : K × D) (rows : List (K × D)) : List (K × D) :=
  rows.takeWhile (fun other => other.1 < row.1) ++
    row :: rows.dropWhile (fun other => other.1 < row.1)

inductive Event (K : Type) where
  | insert (key : K)
  | compact
  deriving DecidableEq, Repr

def step [LinearOrder K] (merge : D → D → D) (payload : K → D) (rows : List (K × D)) : Event K → List (K × D)
  | .insert key => insertRow (key, payload key) rows
  | .compact => compact merge rows

def play [LinearOrder K] (merge : D → D → D) (payload : K → D) (schedule : List (Event K)) : List (K × D) :=
  schedule.foldl (step merge payload) []

/-- The keys of a schedule, in the order in which they arrive. -/
def keys (schedule : List (Event K)) : List K :=
  schedule.filterMap fun
    | .insert key => some key
    | .compact => none

/-- A row arrives below one that was folded together with others. -/
def Late [LinearOrder K] (schedule : List (Event K)) : Prop :=
  ∃ before between after key, schedule =
      before ++ .compact :: (between ++ .insert key :: after) ∧
    2 ≤ (keys before).length ∧ ∃ folded ∈ keys before, key < folded

/-! ## Folding -/

section Fold
variable {merge : D → D → D} {payload : K → D} {rows : List (K × D)}

theorem compact_append_singleton (rows : List (K × D)) (row : K × D) :
    ∃ value, foldFirst merge ((rows ++ [row]).map (·.2)) = some value ∧
      compact merge (rows ++ [row]) = [(row.1, value)] := by
  have hfold : ∃ value, foldFirst merge ((rows ++ [row]).map (·.2)) = some value := by
    cases rows with
    | nil => exact ⟨_, rfl⟩
    | cons first rows => exact ⟨_, rfl⟩
  obtain ⟨value, hvalue⟩ := hfold
  refine ⟨value, hvalue, ?_⟩
  rw [compact, List.getLast?_concat, hvalue]

/-- Rows that were folded before are folded again with the others. -/
theorem compact_append (first second : List (K × D)) :
    compact merge (compact merge first ++ second) = compact merge (first ++ second) := by
  cases first with
  | nil => rfl
  | cons row first =>
    have hlast : ∃ last, (row :: first).getLast? = some last ∧
        compact merge (row :: first) =
          [(last.1, (first.map (·.2)).foldl merge row.2)] := by
      refine ⟨(row :: first).getLast (List.cons_ne_nil _ _), List.getLast?_eq_some_getLast _, ?_⟩
      rw [compact, List.getLast?_eq_some_getLast (List.cons_ne_nil _ _)]
      rfl
    obtain ⟨last, hlast, hcompact⟩ := hlast
    rw [hcompact, compact, compact]
    have hsame : foldFirst merge (([(last.1, (first.map (·.2)).foldl merge row.2)] ++
        second).map (·.2)) = foldFirst merge (((row :: first) ++ second).map (·.2)) := by
      simp [foldFirst]
    rw [hsame, List.getLast?_append, List.getLast?_append, hlast]
    cases second.getLast? <;> rfl

theorem key_mem_of_mem_compact {row : K × D} (h : row ∈ compact merge rows) :
    row.1 ∈ rows.map (·.1) := by
  rcases List.eq_nil_or_concat' rows with rfl | ⟨front, last, rfl⟩
  · cases h
  · obtain ⟨value, -, hcompact⟩ := @compact_append_singleton _ _ merge front last
    rw [hcompact, List.mem_singleton] at h
    rw [h]
    simp

theorem keys_append (first second : List (Event K)) :
    keys (first ++ second) = keys first ++ keys second := List.filterMap_append

/-- The rows of some keys, one for each. -/
def rowsOf (payload : K → D) (sorted : List K) : List (K × D) :=
  sorted.map fun key => (key, payload key)

theorem rowsOf_append (first second : List K) :
    rowsOf payload (first ++ second) = rowsOf payload first ++ rowsOf payload second :=
  List.map_append

end Fold

section Schedule
variable [LinearOrder K] {merge : D → D → D} {payload : K → D} {rows : List (K × D)}
  {schedule : List (Event K)} {key : K}

theorem insertRow_append {row : K × D} {lower higher : List (K × D)}
    (hlower : ∀ other ∈ lower, other.1 < row.1) (hhigher : ∀ other ∈ higher, row.1 < other.1) :
    insertRow row (lower ++ higher) = lower ++ row :: higher := by
  have htake : (lower ++ higher).takeWhile (fun other => other.1 < row.1) = lower := by
    rw [List.takeWhile_append_of_pos (by simpa using hlower)]
    cases higher with
    | nil => simp
    | cons first higher =>
      have hfirst := hhigher first List.mem_cons_self
      simp [hfirst.not_gt]
  have hdrop : (lower ++ higher).dropWhile (fun other => other.1 < row.1) = higher := by
    rw [List.dropWhile_append_of_pos (by simpa using hlower)]
    cases higher with
    | nil => rfl
    | cons first higher =>
      have hfirst := hhigher first List.mem_cons_self
      simp [hfirst.not_gt]
  rw [insertRow, htake, hdrop]

theorem play_concat (event : Event K) : play merge payload (schedule ++ [event]) =
    step merge payload (play merge payload schedule) event := by
  rw [play, List.foldl_append]
  rfl

/-- The keys that arrived, in ascending order. -/
structure Sorts (sorted : List K) (schedule : List (Event K)) : Prop where
  perm : sorted.Perm (keys schedule)
  ascending : sorted.Pairwise (· < ·)

theorem Late.concat (h : Late schedule) (event : Event K) : Late (schedule ++ [event]) := by
  obtain ⟨before, between, after, key, rfl, hlength, hfolded⟩ := h
  exact ⟨before, between, after ++ [event], key, by simp, hlength, hfolded⟩

theorem Late.of_insert {before between : List (Event K)} {folded : K}
    (hlength : 2 ≤ (keys before).length) (hfolded : folded ∈ keys before) (hkey : key < folded) :
    Late ((before ++ .compact :: between) ++ [.insert key]) :=
  ⟨before, between, [], key, by simp, hlength, folded, hfolded, hkey⟩

/-! ## No row is late -/

/-- The keys `low` were folded together by a run. -/
def FoldedTogether (schedule : List (Event K)) (low : List K) : Prop :=
  low = [] ∨ ∃ before between, schedule = before ++ .compact :: between ∧
    2 ≤ (keys before).length ∧ ∀ key ∈ low, key ∈ keys before

/-- The rows are those of the keys `high`, after one that the rows of the keys `low` were folded
into. -/
structure Folded (merge : D → D → D) (payload : K → D) (schedule : List (Event K))
    (low high : List K) : Prop where
  rows : play merge payload schedule = compact merge (rowsOf payload low) ++ rowsOf payload high
  together : FoldedTogether schedule low

theorem FoldedTogether.concat {low : List K} (h : FoldedTogether schedule low) (event : Event K) :
    FoldedTogether (schedule ++ [event]) low := by
  rcases h with h | ⟨before, between, rfl, hlength, hlow⟩
  · exact Or.inl h
  · exact Or.inr ⟨before, between ++ [event], by simp, hlength, hlow⟩

/-- A row that is not late comes above the rows that were folded. -/
theorem FoldedTogether.lt {low : List K} (h : FoldedTogether schedule low)
    (hnodup : (keys (schedule ++ [.insert key])).Nodup)
    (hlate : ¬ Late (schedule ++ [.insert key])) : ∀ k ∈ low, k < key := by
  rcases h with rfl | ⟨before, between, rfl, hlength, hlow⟩
  · exact List.forall_mem_nil _
  · intro k hk
    have hbefore := hlow k hk
    have hle : k ≤ key := le_of_not_gt fun hlt => hlate (.of_insert hlength hbefore hlt)
    refine lt_of_le_of_ne hle fun heq => ?_
    rw [keys_append, List.nodup_append] at hnodup
    refine hnodup.2.2 k ?_ key List.mem_cons_self heq
    rw [keys_append]
    exact List.mem_append_left _ hbefore

theorem key_of_rowsOf {sorted : List K} {row : K × D} (h : row ∈ rowsOf payload sorted) :
    row.1 ∈ sorted := by
  obtain ⟨k, hk, rfl⟩ := List.mem_map.mp h
  exact hk

theorem Folded.insert {low lower higher : List K}
    (h : Folded merge payload schedule low (lower ++ higher)) (hlow : ∀ k ∈ low, k < key)
    (hlower : ∀ k ∈ lower, k < key) (hhigher : ∀ k ∈ higher, key < k) :
    Folded merge payload (schedule ++ [.insert key]) low (lower ++ key :: higher) := by
  refine ⟨?_, h.together.concat _⟩
  rw [play_concat, h.rows, rowsOf_append, ← List.append_assoc, step, insertRow_append]
  · rw [List.append_assoc, rowsOf_append]
    rfl
  · intro row hrow
    rcases List.mem_append.mp hrow with hrow | hrow
    · have hkey := key_mem_of_mem_compact hrow
      rw [rowsOf, List.map_map] at hkey
      obtain ⟨k, hk, heq⟩ := List.mem_map.mp hkey
      rw [← heq]
      exact hlow k hk
    · exact hlower _ (key_of_rowsOf hrow)
  · exact fun row hrow => hhigher _ (key_of_rowsOf hrow)

theorem Sorts.of_insert {lower higher : List K}
    (h : Sorts (lower ++ key :: higher) (schedule ++ [.insert key])) :
    Sorts (lower ++ higher) schedule ∧ (∀ k ∈ lower, k < key) ∧ ∀ k ∈ higher, key < k := by
  obtain ⟨hperm, hascending⟩ := h
  refine ⟨⟨?_, hascending.sublist ?_⟩, ?_, ?_⟩
  · have hkeys : (keys schedule ++ [key]).Perm (key :: keys schedule) := List.perm_append_comm
    rw [keys_append] at hperm
    exact ((List.perm_middle.symm.trans hperm).trans hkeys).cons_inv
  · exact (List.Sublist.refl lower).append (List.sublist_cons_self key higher)
  · rw [List.pairwise_append] at hascending
    exact fun k hk => hascending.2.2 k hk key List.mem_cons_self
  · rw [List.pairwise_append, List.pairwise_cons] at hascending
    exact hascending.2.1.1

theorem folded_of_not_late {sorted : List K} (hsorts : Sorts sorted schedule)
    (hlate : ¬ Late schedule) :
    ∃ low high, sorted = low ++ high ∧ Folded merge payload schedule low high := by
  induction schedule using List.reverseRecOn generalizing sorted with
  | nil =>
    have hnil : sorted = [] := hsorts.perm.eq_nil
    exact ⟨[], [], hnil, rfl, Or.inl rfl⟩
  | append_singleton schedule event ih =>
    have hbefore : ¬ Late schedule := fun h => hlate (h.concat event)
    cases event with
    | insert key =>
      have hkey : key ∈ sorted := hsorts.perm.mem_iff.mpr (by rw [keys_append]; simp [keys])
      obtain ⟨lower, higher, rfl⟩ := List.append_of_mem hkey
      have hnodup := hsorts.perm.nodup_iff.mp (hsorts.ascending.imp ne_of_lt)
      obtain ⟨hsorts, hlower, hhigher⟩ := hsorts.of_insert
      obtain ⟨low, high, hsplit, hfolded⟩ := ih hsorts hbefore
      have hlow := hfolded.together.lt hnodup hlate
      obtain ⟨middle, rfl, rfl⟩ : ∃ middle, lower = low ++ middle ∧ high = middle ++ higher := by
        rcases List.append_eq_append_iff.mp hsplit with ⟨middle, hlow', hhigh⟩ | h
        · cases middle with
          | nil => exact ⟨[], by simpa using hlow'.symm, by simpa using hhigh.symm⟩
          | cons k middle =>
            have hbelow := hlow k (hlow' ▸ List.mem_append_right _ List.mem_cons_self)
            have habove := hhigher k (hhigh ▸ List.mem_cons_self)
            exact absurd hbelow habove.not_gt
        · exact h
      have hmiddle : ∀ k ∈ middle, k < key := fun k hk => hlower k (List.mem_append_right _ hk)
      exact ⟨low, middle ++ key :: higher, by simp, hfolded.insert hlow hmiddle hhigher⟩
    | compact =>
      have hkeys : keys (schedule ++ [Event.compact]) = keys schedule := by
        rw [keys_append]
        exact List.append_nil _
      have hsorts : Sorts sorted schedule := ⟨hkeys ▸ hsorts.perm, hsorts.ascending⟩
      obtain ⟨low, high, rfl, hrows, htogether⟩ := ih hsorts hbefore
      have hplay : play merge payload (schedule ++ [Event.compact]) =
          compact merge (rowsOf payload (low ++ high)) := by
        rw [play_concat, hrows, rowsOf_append]
        exact compact_append _ _
      by_cases hlength : 2 ≤ (keys schedule).length
      · refine ⟨low ++ high, [], by simp, by rw [hplay]; simp [rowsOf], Or.inr ?_⟩
        exact ⟨schedule, [], rfl, hlength, fun k hk => hsorts.perm.mem_iff.mp hk⟩
      · have hlow : low = [] := by
          rcases htogether with h | ⟨before, between, rfl, hbefore, -⟩
          · exact h
          · rw [keys_append, List.length_append] at hlength
            omega
        subst hlow
        refine ⟨[], high, rfl, ?_, Or.inl rfl⟩
        rw [hplay]
        have hone : high.length < 2 := by
          have hsame := hsorts.perm.length_eq
          rw [List.nil_append] at hsame
          omega
        match high, hone with
        | [], _ => rfl
        | [k], _ => rfl

/-- A schedule without late rows that ends with a run folds all rows in key order. -/
theorem play_of_not_late {sorted : List K} (hsorts : Sorts sorted schedule)
    (hlate : ¬ Late schedule) :
    play merge payload (schedule ++ [.compact]) = compact merge (rowsOf payload sorted) := by
  obtain ⟨low, high, rfl, hrows, -⟩ := folded_of_not_late hsorts hlate
  rw [play_concat, hrows, rowsOf_append]
  exact compact_append _ _

end Schedule

/-! ## A row is late

Rows with a neutral value change nothing, so that three other rows show the order in which values
are merged. -/

structure NeutralOn (merge : D → D → D) (e : D) (Ok : D → Prop) : Prop where
  ok : Ok e
  closed : ∀ x y, Ok x → Ok y → Ok (merge x y)
  left : ∀ x, Ok x → merge e x = x
  right : ∀ x, Ok x → merge x e = x

/-- The values of the rows that are not neutral are `values`. -/
inductive Padded (e : D) : List D → List (K × D) → Prop where
  | nil : Padded e [] []
  | neutral {values : List D} {rows : List (K × D)} (key : K) (rest : Padded e values rows) :
      Padded e values ((key, e) :: rows)
  | value {values : List D} {rows : List (K × D)} (key : K) {value : D} (hvalue : value ≠ e)
      (rest : Padded e values rows) : Padded e (value :: values) ((key, value) :: rows)

section Padded
variable {merge : D → D → D} {e : D} {Ok : D → Prop} {values values' : List D}
  {rows rows' lower higher : List (K × D)}

theorem Padded.append (h : Padded e values rows) (h' : Padded e values' rows') :
    Padded e (values ++ values') (rows ++ rows') := by
  induction h with
  | nil => exact h'
  | neutral key _ ih => exact .neutral key ih
  | value key hvalue _ ih => exact .value key hvalue ih

theorem Padded.split (h : Padded e values (lower ++ higher)) :
    ∃ first second, values = first ++ second ∧ Padded e first lower ∧ Padded e second higher := by
  induction lower generalizing values with
  | nil => exact ⟨[], values, rfl, .nil, h⟩
  | cons row lower ih =>
    cases h with
    | neutral key rest =>
      obtain ⟨first, second, rfl, hfirst, hsecond⟩ := ih rest
      exact ⟨first, second, rfl, .neutral key hfirst, hsecond⟩
    | value key hvalue rest =>
      obtain ⟨first, second, rfl, hfirst, hsecond⟩ := ih rest
      exact ⟨_ :: first, second, rfl, .value key hvalue hfirst, hsecond⟩

theorem Padded.eq_nil (h : Padded e values rows) (hneutral : ∀ row ∈ rows, row.2 = e) :
    values = [] := by
  induction h with
  | nil => rfl
  | neutral key _ ih => exact ih fun row hrow => hneutral row (List.mem_cons_of_mem _ hrow)
  | value key hvalue _ _ => exact absurd (hneutral _ List.mem_cons_self) hvalue

theorem Padded.ne (h : Padded e values rows) : ∀ value ∈ values, value ≠ e := by
  induction h with
  | nil => exact List.forall_mem_nil _
  | neutral _ _ ih => exact ih
  | value _ hvalue _ ih => exact List.forall_mem_cons.mpr ⟨hvalue, ih⟩

/-- A neutral row in between. -/
theorem Padded.insert_neutral (h : Padded e values (lower ++ higher)) (key : K) :
    Padded e values (lower ++ (key, e) :: higher) := by
  obtain ⟨first, second, rfl, hfirst, hsecond⟩ := h.split
  exact hfirst.append (.neutral key hsecond)

/-- Another value, below all others. -/
theorem Padded.insert_first (h : Padded e values (lower ++ higher))
    (hlower : ∀ row ∈ lower, row.2 = e) (key : K) {value : D} (hvalue : value ≠ e) :
    Padded e (value :: values) (lower ++ (key, value) :: higher) := by
  obtain ⟨first, second, rfl, hfirst, hsecond⟩ := h.split
  obtain rfl := hfirst.eq_nil hlower
  exact hfirst.append (.value key hvalue hsecond)

theorem Padded.concat (h : Padded e values rows) (key : K) {value : D} (hvalue : value ≠ e) :
    Padded e (values ++ [value]) (rows ++ [(key, value)]) :=
  h.append (.value key hvalue .nil)

/-- Folding the rows is folding the values. -/
theorem Padded.foldl (hneutral : NeutralOn merge e Ok) (h : Padded e values rows)
    (hvalues : ∀ value ∈ values, Ok value) {start : D} (hstart : Ok start) :
    (rows.map (·.2)).foldl merge start = values.foldl merge start ∧
      Ok (values.foldl merge start) := by
  induction h generalizing start with
  | nil => exact ⟨rfl, hstart⟩
  | neutral key _ ih =>
    rw [List.map_cons, List.foldl_cons, hneutral.right start hstart]
    exact ih hvalues hstart
  | value key _ _ ih =>
    rw [List.map_cons, List.foldl_cons, List.foldl_cons]
    exact ih (fun other hother => hvalues other (List.mem_cons_of_mem _ hother))
      (hneutral.closed start _ hstart (hvalues _ List.mem_cons_self))

theorem Padded.compact (hneutral : NeutralOn merge e Ok) (h : Padded e values rows)
    (hvalues : ∀ value ∈ values, Ok value) {last : K × D} (hlast : rows.getLast? = some last) :
    Compaction.compact merge rows = [(last.1, values.foldl merge e)] := by
  obtain ⟨hfold, -⟩ := h.foldl hneutral hvalues hneutral.ok
  cases h with
  | nil => cases hlast
  | neutral key rest =>
    rw [List.map_cons, List.foldl_cons, hneutral.left e hneutral.ok] at hfold
    rw [Compaction.compact, hlast, ← hfold]
    rfl
  | value key _ rest =>
    rw [List.map_cons, List.foldl_cons, hneutral.left _ (hvalues _ List.mem_cons_self)] at hfold
    rw [Compaction.compact, hlast, ← hfold]
    rfl

end Padded

section Stages
variable [LinearOrder K] {merge : D → D → D} {payload : K → D} {e x : D} {Ok : D → Prop}
  {values : List D} {rows lower higher : List (K × D)} {lo key : K} {events : List (Event K)}

/-- The last row is not below a key. -/
def Raised (lo : K) (rows : List (K × D)) : Prop :=
  ∃ last, rows.getLast? = some last ∧ lo ≤ last.1

/-- There is one value, in a row that is not below a key. -/
structure Settled (e : D) (lo : K) (x : D) (rows : List (K × D)) : Prop where
  padded : Padded e [x] rows
  raised : Raised lo rows
  below : ∀ row ∈ rows, row.1 < lo → row.2 = e

/-- Folding the rows gives this value. -/
def Total (merge : D → D → D) (e : D) (Ok : D → Prop) (total : D) (rows : List (K × D)) : Prop :=
  ∃ values, Padded e values rows ∧ (∀ value ∈ values, Ok value) ∧ values.foldl merge e = total

/-- All rows of the events are neutral. -/
def Quiet (payload : K → D) (e : D) (events : List (Event K)) : Prop :=
  ∀ key ∈ keys events, payload key = e

theorem insertRow_split (row : K × D) (rows : List (K × D)) :
    ∃ lower higher, rows = lower ++ higher ∧ insertRow row rows = lower ++ row :: higher ∧
      ∀ other ∈ lower, other.1 < row.1 := by
  refine ⟨_, _, List.takeWhile_append_dropWhile.symm, rfl, fun other hother => ?_⟩
  simpa using List.mem_takeWhile_imp hother

theorem insertRow_last {row : K × D} (h : ∀ other ∈ rows, other.1 < row.1) :
    insertRow row rows = rows ++ [row] := by
  have hinsert := insertRow_append h (List.forall_mem_nil fun other : K × D => row.1 < other.1)
  rwa [List.append_nil] at hinsert

theorem compact_getLast? {last : K × D} (h : rows.getLast? = some last) :
    ∃ value, compact merge rows = [(last.1, value)] := by
  rcases List.eq_nil_or_concat' rows with rfl | ⟨front, row, rfl⟩
  · cases h
  · rw [List.getLast?_concat, Option.some.injEq] at h
    obtain ⟨value, -, hcompact⟩ := @compact_append_singleton _ _ merge front row
    exact ⟨value, h ▸ hcompact⟩

theorem Raised.insert (h : Raised lo rows) (row : K × D) : Raised lo (insertRow row rows) := by
  obtain ⟨last, hlast, hlo⟩ := h
  obtain ⟨lower, higher, rfl, hinsert, hlower⟩ := insertRow_split row rows
  rw [hinsert]
  cases higher with
  | nil =>
    rw [List.append_nil] at hlast
    have hless := hlower last (List.mem_of_getLast? hlast)
    exact ⟨row, by simp, hlo.trans hless.le⟩
  | cons first higher =>
    refine ⟨last, ?_, hlo⟩
    rw [List.getLast?_append] at hlast ⊢
    simpa using hlast

theorem Raised.step (h : Raised lo rows) (event : Event K) :
    Raised lo (step merge payload rows event) := by
  cases event with
  | insert key => exact h.insert _
  | compact =>
    obtain ⟨last, hlast, hlo⟩ := h
    obtain ⟨value, hcompact⟩ : ∃ value, compact merge _ = [(last.1, value)] :=
      compact_getLast? hlast
    exact ⟨(last.1, value), by rw [Compaction.step, hcompact]; rfl, hlo⟩

/-- At most one value stays what it is. -/
theorem Padded.step (hneutral : NeutralOn merge e Ok) (h : Padded e values rows)
    (hvalues : ∀ value ∈ values, Ok value) (hone : values.length ≤ 1) {event : Event K}
    (hquiet : Quiet payload e [event]) : Padded e values (step merge payload rows event) := by
  cases event with
  | insert key =>
    obtain ⟨lower, higher, rfl, hinsert, -⟩ := insertRow_split (key, payload key) rows
    have hkey : payload key = e := hquiet key List.mem_cons_self
    rw [Compaction.step, hinsert, hkey]
    exact h.insert_neutral key
  | compact =>
    rw [Compaction.step]
    cases hlast : rows.getLast? with
    | none =>
      rw [List.getLast?_eq_none_iff.mp hlast] at h ⊢
      exact h
    | some last =>
      rw [h.compact hneutral hvalues hlast]
      match values, hone, hvalues, h with
      | [], _, _, _ => exact .neutral _ .nil
      | [x], _, hvalues, h =>
        rw [List.foldl_cons, hneutral.left x (hvalues x List.mem_cons_self)]
        exact .value _ (h.ne x (List.mem_singleton_self x)) .nil

theorem Settled.step (hneutral : NeutralOn merge e Ok) (h : Settled e lo x rows) (hx : Ok x)
    {event : Event K} (hquiet : Quiet payload e [event]) :
    Settled e lo x (step merge payload rows event) := by
  refine ⟨h.padded.step hneutral (by simpa using hx) (by simp) hquiet, h.raised.step event, ?_⟩
  cases event with
  | insert key =>
    obtain ⟨lower, higher, rfl, hinsert, -⟩ := insertRow_split (key, payload key) rows
    rw [Compaction.step, hinsert]
    intro row hrow hlo
    rw [List.mem_append, List.mem_cons] at hrow
    rcases hrow with hrow | rfl | hrow
    · exact h.below row (List.mem_append_left _ hrow) hlo
    · exact hquiet key List.mem_cons_self
    · exact h.below row (List.mem_append_right _ hrow) hlo
  | compact =>
    obtain ⟨last, hlast, hlo⟩ := h.raised
    obtain ⟨value, hcompact⟩ : ∃ value, compact merge _ = [(last.1, value)] :=
      compact_getLast? hlast
    rw [Compaction.step, hcompact]
    intro row hrow hless
    rw [List.mem_singleton.mp hrow] at hless
    exact absurd hless hlo.not_gt

theorem Total.step (hneutral : NeutralOn merge e Ok) (h : Total merge e Ok x rows)
    {event : Event K} (hquiet : Quiet payload e [event]) :
    Total merge e Ok x (step merge payload rows event) := by
  obtain ⟨values, hpadded, hvalues, htotal⟩ := h
  cases event with
  | insert key =>
    obtain ⟨lower, higher, rfl, hinsert, -⟩ := insertRow_split (key, payload key) rows
    have hkey : payload key = e := hquiet key List.mem_cons_self
    rw [Compaction.step, hinsert, hkey]
    exact ⟨values, hpadded.insert_neutral key, hvalues, htotal⟩
  | compact =>
    rw [Compaction.step]
    cases hlast : rows.getLast? with
    | none =>
      rw [List.getLast?_eq_none_iff.mp hlast] at hpadded ⊢
      exact ⟨values, hpadded, hvalues, htotal⟩
    | some last =>
      rw [hpadded.compact hneutral hvalues hlast, htotal]
      have hx : Ok x := htotal ▸ (hpadded.foldl hneutral hvalues hneutral.ok).2
      by_cases he : x = e
      · rw [he]
        exact ⟨[], .neutral _ .nil, List.forall_mem_nil _, rfl⟩
      · exact ⟨[x], .value _ he .nil, by simpa using hx, hneutral.left x hx⟩

/-- What quiet steps keep, quiet schedules keep. -/
theorem foldl_quiet {P : List (K × D) → Prop}
    (hstep : ∀ rows event, P rows → Quiet payload e [event] → P (step merge payload rows event))
    (hquiet : Quiet payload e events) (h : P rows) : P (events.foldl (step merge payload) rows) := by
  induction events generalizing rows with
  | nil => exact h
  | cons event events ih =>
    have hkeys : keys (event :: events) = keys [event] ++ keys events := keys_append [event] events
    rw [Quiet, hkeys, List.forall_mem_append] at hquiet
    exact ih hquiet.2 (hstep rows event h hquiet.1)

theorem keys_foldl {row : K × D} (h : row ∈ events.foldl (step merge payload) rows) :
    row.1 ∈ rows.map (·.1) ++ keys events := by
  induction events generalizing rows with
  | nil => exact List.mem_append_left _ (List.mem_map_of_mem h)
  | cons event events ih =>
    have hkeys : keys (event :: events) = keys [event] ++ keys events := keys_append [event] events
    rw [hkeys]
    rcases List.mem_append.mp (ih h) with hrow | hrow
    · cases event with
      | insert key =>
        obtain ⟨lower, higher, rfl, hinsert, -⟩ := insertRow_split (key, payload key) rows
        rw [Compaction.step, hinsert] at hrow
        simp [keys] at hrow ⊢
        tauto
      | compact =>
        obtain ⟨other, hother, heq⟩ := List.mem_map.mp hrow
        rw [← heq]
        exact List.mem_append_left _ (key_mem_of_mem_compact hother)
    · simp [hrow]

theorem Padded.neutral_of_nil (h : Padded e [] rows) : ∀ row ∈ rows, row.2 = e := by
  generalize hnil : ([] : List D) = values at h
  induction h with
  | nil => exact List.forall_mem_nil _
  | neutral key _ ih => exact List.forall_mem_cons.mpr ⟨rfl, ih hnil⟩
  | value => cases hnil

theorem Padded.insert_only (h : Padded e [] (lower ++ higher)) (key : K) {value : D}
    (hvalue : value ≠ e) : Padded e [value] (lower ++ (key, value) :: higher) :=
  h.insert_first (fun row hrow => h.neutral_of_nil row (List.mem_append_left _ hrow)) key hvalue

theorem mem_keys (h : key ∈ keys events) :
    ∃ before after, events = before ++ .insert key :: after := by
  obtain ⟨event, hevent, hkey⟩ := List.mem_filterMap.mp h
  cases event with
  | insert other =>
    cases hkey
    exact List.append_of_mem hevent
  | compact => cases hkey

theorem keys_insert (key : K) (events : List (Event K)) :
    keys (.insert key :: events) = key :: keys events := rfl

theorem play_append (first second : List (Event K)) : play merge payload (first ++ second) =
    second.foldl (step merge payload) (play merge payload first) := List.foldl_append

/-! ### The rows before the run -/

variable {c M : K} {before : List (Event K)}

theorem total_two (hneutral : NeutralOn merge e Ok) {x y : D} (hx : Ok x) (hy : Ok y)
    (h : Padded e [x, y] rows) : Total merge e Ok (merge x y) rows := by
  refine ⟨_, h, by simpa using ⟨hx, hy⟩, ?_⟩
  rw [List.foldl_cons, hneutral.left _ hx]
  rfl

theorem total_foldl (hneutral : NeutralOn merge e Ok) {total : D} {events : List (Event K)}
    (hquiet : Quiet payload e events) (h : Total merge e Ok total rows ∧ Raised M rows) :
    Total merge e Ok total (events.foldl (step merge payload) rows) ∧
      Raised M (events.foldl (step merge payload) rows) :=
  foldl_quiet (P := fun rows => Total merge e Ok total rows ∧ Raised M rows)
    (fun _ event h hq => ⟨h.1.step hneutral hq, h.2.step event⟩) hquiet h

theorem padded_play (hneutral : NeutralOn merge e Ok) (hquiet : Quiet payload e before) :
    Padded e [] (play merge payload before) :=
  foldl_quiet (fun _ _ h hq => h.step hneutral (List.forall_mem_nil _) (by simp) hq) hquiet .nil

/-- A row above all that is there goes to the end. -/
theorem step_insert_above (hbelow : ∀ k ∈ keys before, k < M) :
    step merge payload (play merge payload before) (.insert M) =
      play merge payload before ++ [(M, payload M)] :=
  insertRow_last fun row hrow => hbelow row.1 (keys_foldl hrow)

/-- A row below the greatest key goes before the value that is settled there. -/
theorem Settled.insert_below {x : D} (h : Settled e M x rows) (hkey : key < M)
    (hvalue : payload key ≠ e) :
    Padded e [payload key, x] (Compaction.step merge payload rows (.insert key)) := by
  obtain ⟨lower, higher, rfl, hinsert, hlower⟩ := insertRow_split (key, payload key) rows
  rw [Compaction.step, hinsert]
  refine h.padded.insert_first (fun row hrow => ?_) key hvalue
  exact h.below row (List.mem_append_left _ hrow) ((hlower row hrow).trans hkey)

/-- `M` arrives first, so the row of `c` goes below it. -/
theorem padded_greatest_first (hneutral : NeutralOn merge e Ok) {first second : List (Event K)}
    (hfirst : Quiet payload e first) (hsecond : Quiet payload e second)
    (hbelow : ∀ k ∈ keys first, k < M) (hc : c < M) (hOk : Ok (payload M))
    (hvalues : payload c ≠ e ∧ payload M ≠ e) :
    Padded e [payload c, payload M]
        (play merge payload (first ++ .insert M :: (second ++ [.insert c]))) ∧
      Raised M (play merge payload (first ++ .insert M :: (second ++ [.insert c]))) := by
  have hstart := padded_play hneutral hfirst
  have hsettled : Settled e M (payload M)
      (step merge payload (play merge payload first) (.insert M)) := by
    rw [step_insert_above hbelow]
    refine ⟨hstart.concat M hvalues.2, ⟨_, List.getLast?_concat, le_rfl⟩, fun row hrow hlo => ?_⟩
    rcases List.mem_append.mp hrow with hrow | hrow
    · exact hstart.neutral_of_nil row hrow
    · rw [List.mem_singleton.mp hrow] at hlo
      exact absurd hlo (lt_irrefl M)
  have hlater := foldl_quiet (P := Settled e M (payload M))
    (fun _ _ h hq => h.step hneutral hOk hq) hsecond hsettled
  simp only [play_append, List.foldl_cons, List.foldl_append, List.foldl_nil]
  exact ⟨hlater.insert_below hc hvalues.1, hlater.raised.step _⟩

/-- `c` arrives first, and `M` is above all that is there. -/
theorem padded_greatest_last (hneutral : NeutralOn merge e Ok) {first second : List (Event K)}
    (hfirst : Quiet payload e first) (hsecond : Quiet payload e second)
    (hbelow : ∀ k ∈ keys (first ++ .insert c :: second), k < M) (hOk : Ok (payload c))
    (hvalues : payload c ≠ e ∧ payload M ≠ e) :
    Padded e [payload c, payload M]
        (play merge payload (first ++ .insert c :: (second ++ [.insert M]))) ∧
      Raised M (play merge payload (first ++ .insert c :: (second ++ [.insert M]))) := by
  have hone : Padded e [payload c] (step merge payload (play merge payload first) (.insert c)) := by
    have hstart := padded_play hneutral hfirst
    obtain ⟨lower, higher, hsplit, hinsert, -⟩ :=
      insertRow_split (c, payload c) (play merge payload first)
    rw [hsplit] at hstart
    rw [step, hinsert]
    exact hstart.insert_only c hvalues.1
  have hlater := foldl_quiet (P := Padded e [payload c]) (fun _ _ h hq =>
    h.step hneutral (by simpa using hOk) (by simp) hq) hsecond hone
  have hplay : play merge payload (first ++ .insert c :: (second ++ [.insert M])) =
      play merge payload (first ++ .insert c :: second) ++ [(M, payload M)] := by
    rw [← List.cons_append, ← List.append_assoc, play_concat, step_insert_above hbelow]
  rw [hplay, play_append]
  exact ⟨hlater.concat M hvalues.2, ⟨_, List.getLast?_concat, le_rfl⟩⟩

theorem total_play_append (hneutral : NeutralOn merge e Ok) {events later : List (Event K)}
    (hOk : Ok (payload c) ∧ Ok (payload M)) (hquiet : Quiet payload e later)
    (h : Padded e [payload c, payload M] (play merge payload events) ∧
      Raised M (play merge payload events)) :
    Total merge e Ok (merge (payload c) (payload M)) (play merge payload (events ++ later)) ∧
      Raised M (play merge payload (events ++ later)) := by
  rw [play_append]
  exact total_foldl hneutral hquiet ⟨total_two hneutral hOk.1 hOk.2 h.1, h.2⟩

/-- The row of `c` comes before that of the greatest key `M`, whichever arrives first. -/
theorem total_of_two (hneutral : NeutralOn merge e Ok) (hc : c ∈ keys before) (hM : M ∈ keys before)
    (hgreatest : ∀ k ∈ keys before, k ≤ M) (hne : c ≠ M) (hnodup : (keys before).Nodup)
    (hOk : Ok (payload c) ∧ Ok (payload M)) (hvalues : payload c ≠ e ∧ payload M ≠ e)
    (hother : ∀ k ∈ keys before, k ≠ c → k ≠ M → payload k = e) :
    Total merge e Ok (merge (payload c) (payload M)) (play merge payload before) ∧
      Raised M (play merge payload before) := by
  obtain ⟨front, back, rfl⟩ := mem_keys hc
  rw [keys_append, keys_insert, List.mem_append, List.mem_cons] at hM
  rcases hM with hM | hM | hM
  · obtain ⟨first, second, rfl⟩ := mem_keys hM
    simp only [keys_append, keys_insert] at hnodup hgreatest hother
    have hfirst : Quiet payload e first := fun k hk => hother k (by simp [hk]) (by grind) (by grind)
    have hsecond : Quiet payload e second := fun k hk => hother k (by simp [hk]) (by grind) (by grind)
    have hback : Quiet payload e back := fun k hk => hother k (by simp [hk]) (by grind) (by grind)
    have hbelow : ∀ k ∈ keys first, k < M := fun k hk =>
      lt_of_le_of_ne (hgreatest k (by simp [hk])) (by grind)
    have hc : c < M := lt_of_le_of_ne (hgreatest c (by simp)) hne
    have hpadded := total_play_append hneutral hOk hback
      (padded_greatest_first hneutral hfirst hsecond hbelow hc hOk.2 hvalues)
    simpa using hpadded
  · exact absurd hM.symm hne
  · obtain ⟨first, second, rfl⟩ := mem_keys hM
    simp only [keys_append, keys_insert] at hnodup hgreatest hother
    have hfront : Quiet payload e front := fun k hk => hother k (by simp [hk]) (by grind) (by grind)
    have hfirst : Quiet payload e first := fun k hk => hother k (by simp [hk]) (by grind) (by grind)
    have hsecond : Quiet payload e second := fun k hk => hother k (by simp [hk]) (by grind) (by grind)
    have hbelow : ∀ k ∈ keys (front ++ .insert c :: first), k < M := fun k hk => by
      rw [keys_append, keys_insert] at hk
      exact lt_of_le_of_ne (hgreatest k (by grind)) (by grind)
    have hpadded := total_play_append hneutral hOk hsecond
      (padded_greatest_last hneutral hfront hfirst hbelow hOk.1 hvalues)
    simpa using hpadded

/-! ### The late row -/

/-- A row that arrives after a run, below a key that was folded, comes before all that was folded. -/
theorem compact_of_late (hneutral : NeutralOn merge e Ok) {total : D}
    (h : Total merge e Ok total rows ∧ Raised M rows) (htotal : total ≠ e)
    {between after : List (Event K)} (hkey : key < M) (hOk : Ok (payload key))
    (hvalue : payload key ≠ e) (hbetween : Quiet payload e between) (hafter : Quiet payload e after) :
    ∃ last, (.compact :: (between ++ .insert key :: (after ++ [.compact]))).foldl
      (step merge payload) rows = [(last, merge (payload key) total)] := by
  obtain ⟨⟨values, hpadded, hvalues, rfl⟩, last, hlast, hlo⟩ := h
  have hOktotal := (hpadded.foldl hneutral hvalues hneutral.ok).2
  have hcompact : step merge payload rows .compact = [(last.1, values.foldl merge e)] :=
    hpadded.compact hneutral hvalues hlast
  have hsettled : Settled e M (values.foldl merge e) (step merge payload rows .compact) := by
    rw [hcompact]
    refine ⟨.value _ htotal .nil, ⟨_, rfl, hlo⟩, fun row hrow hless => ?_⟩
    rw [List.mem_singleton.mp hrow] at hless
    exact absurd hless hlo.not_gt
  have hlater := foldl_quiet (P := Settled e M (values.foldl merge e))
    (fun _ _ h hq => h.step hneutral hOktotal hq) hbetween hsettled
  simp only [List.foldl_cons, List.foldl_append, List.foldl_nil]
  have hbelow : Padded e [payload key, values.foldl merge e] (step merge payload _ (.insert key)) :=
    hlater.insert_below hkey hvalue
  have hboth := total_two hneutral hOk hOktotal hbelow
  obtain ⟨⟨values', hpadded', hvalues', htotal'⟩, last', hlast', -⟩ :=
    total_foldl hneutral hafter ⟨hboth, hlater.raised.step (.insert key)⟩
  exact ⟨last'.1, (hpadded'.compact hneutral hvalues' hlast').trans (by rw [htotal'])⟩

/-! ### What was to be expected -/

theorem padded_rowsOf {special : List K} (hspecial : ∀ k ∈ special, payload k ≠ e)
    (hother : ∀ k, k ∉ special → payload k = e) (sorted : List K) :
    Padded e ((sorted.filter (· ∈ special)).map payload) (rowsOf payload sorted) := by
  induction sorted with
  | nil => exact .nil
  | cons k sorted ih =>
    by_cases hk : k ∈ special
    · rw [List.filter_cons_of_pos (by simpa using hk)]
      exact .value k (hspecial k hk) ih
    · rw [List.filter_cons_of_neg (by simpa using hk)]
      show Padded e _ ((k, payload k) :: rowsOf payload sorted)
      rw [hother k hk]
      exact .neutral k ih

theorem filter_special {special sorted : List K} (hsorted : sorted.Pairwise (· < ·))
    (hspecial : special.Pairwise (· < ·)) (hmem : ∀ k ∈ special, k ∈ sorted) :
    sorted.filter (· ∈ special) = special := by
  refine List.Perm.eq_of_pairwise (fun a b _ _ hab hba => absurd hab hba.not_gt)
    (hsorted.filter _) hspecial ?_
  refine (List.perm_ext_iff_of_nodup (hsorted.filter _ |>.imp ne_of_lt)
    (hspecial.imp ne_of_lt)).mpr fun k => ?_
  rw [List.mem_filter, decide_eq_true_eq]
  exact ⟨fun h => h.2, fun h => ⟨hmem k h, h⟩⟩

/-- Three values that show in which order they were merged. -/
structure ShowsOrder (merge : D → D → D) (e : D) (Ok : D → Prop) (x y z : D) : Prop where
  ok : Ok x ∧ Ok y ∧ Ok z
  values : x ≠ e ∧ y ≠ e ∧ z ≠ e
  merged : merge x z ≠ e ∧ merge y z ≠ e
  commuted : merge y (merge x z) ≠ merge (merge x y) z
  associated : merge x (merge y z) ≠ merge (merge x y) z

/-- The values of three keys; all other rows are neutral. -/
def threeValues (a b M : K) (x y z e : D) (key : K) : D :=
  if key = a then x else if key = b then y else if key = M then z else e

theorem threeValues_eq {a b M : K} (x y z e : D) (hab : a < b) (hbM : b < M) :
    threeValues a b M x y z e a = x ∧ threeValues a b M x y z e b = y ∧
      threeValues a b M x y z e M = z ∧
      ∀ k, k ≠ a → k ≠ b → k ≠ M → threeValues a b M x y z e k = e := by
  refine ⟨if_pos rfl, ?_, ?_, fun k ha hb hM => ?_⟩
  · rw [threeValues, if_neg hab.ne', if_pos rfl]
  · rw [threeValues, if_neg (hab.trans hbM).ne', if_neg hbM.ne', if_pos rfl]
  · rw [threeValues, if_neg ha, if_neg hb, if_neg hM]

theorem compact_threeValues {y z : D} {a b M : K} {sorted : List K}
    (hneutral : NeutralOn merge e Ok) (hshows : ShowsOrder merge e Ok x y z)
    (hsorted : sorted.Pairwise (· < ·)) (hab : a < b) (hbM : b < M) (ha : a ∈ sorted)
    (hb : b ∈ sorted) (hM : M ∈ sorted) :
    ∃ last, compact merge (rowsOf (threeValues a b M x y z e) sorted) =
      [(last, merge (merge x y) z)] := by
  obtain ⟨hx, hy, hz, hother⟩ := threeValues_eq x y z e hab hbM
  have hspecial : [a, b, M].Pairwise (· < ·) := by simp [hab, hbM, hab.trans hbM]
  have hpadded : Padded e ((sorted.filter (· ∈ [a, b, M])).map (threeValues a b M x y z e))
      (rowsOf (threeValues a b M x y z e) sorted) := by
    refine padded_rowsOf ?_ (fun k hk => ?_) sorted
    · simpa [hx, hy, hz] using hshows.values
    · simp only [List.mem_cons, List.not_mem_nil, or_false, not_or] at hk
      exact hother k hk.1 hk.2.1 hk.2.2
  rw [filter_special hsorted hspecial (by simpa using ⟨ha, hb, hM⟩)] at hpadded
  have hne : rowsOf (threeValues a b M x y z e) sorted ≠ [] := by
    rw [rowsOf, ne_eq, List.map_eq_nil_iff]
    exact List.ne_nil_of_mem ha
  have hcompact := hpadded.compact hneutral (by simpa [hx, hy, hz] using hshows.ok)
    (List.getLast?_eq_some_getLast hne)
  simp only [List.map_cons, List.map_nil, List.foldl_cons, List.foldl_nil, hx, hy, hz,
    hneutral.left x hshows.ok.1] at hcompact
  exact ⟨_, hcompact⟩

theorem exists_play_ne {y z : D} (hneutral : NeutralOn merge e Ok)
    (hshows : ShowsOrder merge e Ok x y z) {sorted : List K} {schedule : List (Event K)}
    (hsorts : Sorts sorted schedule) (hlate : Late schedule) :
    ∃ a b M, play merge (threeValues a b M x y z e) (schedule ++ [.compact]) ≠
      compact merge (rowsOf (threeValues a b M x y z e) sorted) := by
  obtain ⟨before, between, after, v, rfl, hlength, folded, hfolded, hless⟩ := hlate
  have hnodup := hsorts.perm.nodup_iff.mp (hsorts.ascending.imp ne_of_lt)
  have hkeys : keys (before ++ .compact :: (between ++ .insert v :: after)) =
      keys before ++ (keys between ++ v :: keys after) := by
    rw [keys_append]
    show _ ++ keys (between ++ .insert v :: after) = _
    rw [keys_append, keys_insert]
  rw [hkeys] at hnodup
  obtain ⟨M, hM, hgreatest⟩ := (keys before).toFinset.exists_max_image id ⟨folded, by simpa using hfolded⟩
  simp only [List.mem_toFinset, id] at hM hgreatest
  obtain ⟨c, hc, hne⟩ : ∃ c ∈ keys before, c ≠ M := by
    by_contra hall
    have hsame : keys before = List.replicate (keys before).length M :=
      List.eq_replicate_of_mem fun c hc => by_contra fun hne => hall ⟨c, hc, hne⟩
    have hone := (List.nodup_append.mp hnodup).1
    rw [hsame, List.nodup_replicate] at hone
    omega
  have hv : v < M := hless.trans_le (hgreatest folded hfolded)
  have hcM : c < M := lt_of_le_of_ne (hgreatest c hc) hne
  have hcv : c ≠ v := by grind
  -- whatever the values are, the late row comes before the other two
  have hplay (payload : K → D) (hOk : Ok (payload c) ∧ Ok (payload v) ∧ Ok (payload M))
      (hvalues : payload c ≠ e ∧ payload v ≠ e ∧ payload M ≠ e)
      (hmerged : merge (payload c) (payload M) ≠ e)
      (hother : ∀ k, k ≠ c → k ≠ v → k ≠ M → payload k = e) :
      ∃ last, play merge payload
          ((before ++ .compact :: (between ++ .insert v :: after)) ++ [.compact]) =
        [(last, merge (payload v) (merge (payload c) (payload M)))] := by
    have htwo := total_of_two hneutral hc hM hgreatest hne (List.nodup_append.mp hnodup).1
      ⟨hOk.1, hOk.2.2⟩ ⟨hvalues.1, hvalues.2.2⟩ fun k hk hkc hkM => hother k hkc (by grind) hkM
    have hbetween : Quiet payload e between := fun k hk => hother k (by grind) (by grind) (by grind)
    have hafter : Quiet payload e after := fun k hk => hother k (by grind) (by grind) (by grind)
    obtain ⟨last, hlast⟩ := compact_of_late hneutral htwo hmerged hv hOk.2.1 hvalues.2.1 hbetween hafter
    refine ⟨last, ?_⟩
    rw [List.append_assoc, play_append]
    simpa using hlast
  have hmem {k : K} (hk : k ∈ keys before ∨ k = v) : k ∈ sorted := by
    rw [hsorts.perm.mem_iff, hkeys]
    grind
  rcases lt_or_gt_of_ne hcv with hlt | hlt
  · refine ⟨c, v, M, ?_⟩
    obtain ⟨hc', hv', hM', hother⟩ := threeValues_eq x y z e hlt hv
    obtain ⟨last, hlast⟩ := hplay (threeValues c v M x y z e) (by rw [hc', hv', hM']; exact hshows.ok)
      (by rw [hc', hv', hM']; exact hshows.values) (by rw [hc', hM']; exact hshows.merged.1) hother
    obtain ⟨other, hother⟩ := compact_threeValues hneutral hshows hsorts.ascending hlt hv
      (hmem (Or.inl hc)) (hmem (Or.inr rfl)) (hmem (Or.inl hM))
    rw [hlast, hother, hc', hv', hM']
    simpa using fun _ => hshows.commuted
  · refine ⟨v, c, M, ?_⟩
    obtain ⟨hv', hc', hM', hother⟩ := threeValues_eq x y z e hlt hcM
    obtain ⟨last, hlast⟩ := hplay (threeValues v c M x y z e)
      (by rw [hc', hv', hM']; exact ⟨hshows.ok.2.1, hshows.ok.1, hshows.ok.2.2⟩)
      (by rw [hc', hv', hM']; exact ⟨hshows.values.2.1, hshows.values.1, hshows.values.2.2⟩)
      (by rw [hc', hM']; exact hshows.merged.2) fun k hkc hkv hkM => hother k hkv hkc hkM
    obtain ⟨other, hother⟩ := compact_threeValues hneutral hshows hsorts.ascending hlt hcM
      (hmem (Or.inr rfl)) (hmem (Or.inl hc)) (hmem (Or.inl hM))
    rw [hlast, hother, hc', hv', hM']
    simpa using fun _ => hshows.associated

end Stages
end Compaction
