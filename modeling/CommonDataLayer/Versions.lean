import Mathlib.Data.List.Perm.Basic
import CommonDataLayer.DataRouter.Delivery
import CommonDataLayer.CommandService.PostgresOutputPlugin

/-! # The versions of the entries of a batch

Every entry that the router handles gets one reading of a millisecond clock, which the PostgreSQL
plugin stores as the version of the row. The clock does not go back, but it may stand still: the
versions of an object are distinct exactly when its entries were read at different milliseconds.

* `readings`, `inserts`: what a trace of the router read from the clock, and the messages it
  published.
* `OrderedVersions`: the entries of an object have increasing stamps, which their messages carry, and
  the messages, in whatever order they are stored, are all accepted and leave the last one selected.
-/
namespace CommonDataLayer
open Interaction Postgres CommandService
open DataRouter hiding Call Answer
set_option autoImplicit false

/-- The readings of the clock in a trace. -/
def readings (t : DataRouter.Trace) : List ℤ :=
  t.filterMap fun e => match e with
    | ⟨.currentTimestamp, now⟩ => some now
    | _ => none

/-- The insert messages whose publish was confirmed. -/
def inserts (t : DataRouter.Trace) : List BorrowedInsertMessage :=
  t.filterMap fun e => match e with
    | ⟨.publishMessage _ _ (.insert message), .ok ()⟩ => some message
    | _ => none

/-- Entries of one object are read at increasing times. -/
def DistinctStamps (entries : List DataRouterInsertMessage) (stamps : List ℤ) : Prop :=
  ∀ (i j : ℕ) (e f : DataRouterInsertMessage) (a b : ℤ), i < j → entries[i]? = some e →
    entries[j]? = some f → stamps[i]? = some a → stamps[j]? = some b →
    e.objectId = f.objectId → a < b

/-- Messages of one object carry increasing timestamps. -/
def Increasing (messages : List BorrowedInsertMessage) : Prop :=
  messages.Pairwise fun m n => m.objectId = n.objectId → m.timestamp < n.timestamp

/-- No `INSERT` of these messages is refused, and the last message of an object that is stored is
the one that is selected. -/
def Accepted (json : SerdeJson) (messages : List BorrowedInsertMessage) : Prop :=
  ∀ (order : List BorrowedInsertMessage) (table : DataTable), order.Perm messages →
    (∀ row ∈ table.rows, ∀ m ∈ messages, row.objectId = m.objectId → row.version < m.timestamp) →
    (∀ resolution ∈ (PostgresOutputPlugin.storeAll json order table).1,
      ∀ err, resolution ≠ .storageLayerFailure err) ∧
    ∀ before m after row, messages = before ++ m :: after →
      PostgresOutputPlugin.rowOf json m = some row →
      (∀ later ∈ after, later.objectId = m.objectId →
        PostgresOutputPlugin.rowOf json later = none) →
      (PostgresOutputPlugin.storeAll json order table).2.selectMultiple [m.objectId] = [row]

/-- The stamps of the entries increase, those of their messages are the same, and the messages are
accepted. -/
structure OrderedVersions (json : SerdeJson) (entries : List DataRouterInsertMessage)
    (t : DataRouter.Trace) : Prop where
  distinct : DistinctStamps entries (readings t)
  stamped : (inserts t).Sublist (List.zipWith stamped entries (readings t))
  increasing : Increasing (inserts t)
  accepted : Accepted json (inserts t)

variable {json : SerdeJson} {config : Config} {key : String}

/-! ## Stamps of a batch -/

theorem readings_append (t₁ t₂ : DataRouter.Trace) :
    readings (t₁ ++ t₂) = readings t₁ ++ readings t₂ := List.filterMap_append

theorem inserts_append (t₁ t₂ : DataRouter.Trace) :
    inserts (t₁ ++ t₂) = inserts t₁ ++ inserts t₂ := List.filterMap_append

theorem lookup_silent {schemaId : Uuid} {t : DataRouter.Trace} {r : DataRouter.Result String}
    (h : Lookup config schemaId t r) : readings t = [] ∧ inserts t = [] := by
  cases h <;> exact ⟨rfl, rfl⟩

/-- An entry reads the clock once and publishes at most its stamped message. -/
theorem routed_stamps {entry : DataRouterInsertMessage} {t : DataRouter.Trace}
    {r : DataRouter.Result Unit} (h : Routed config key entry t r) :
    ∃ now, readings t = [now] ∧ (inserts t).Sublist [stamped entry now] := by
  cases h with
  | @published now t topic found =>
    obtain ⟨hr, hi⟩ := lookup_silent found
    refine ⟨now, ?_, ?_⟩
    · show now :: readings (t ++ _) = _
      rw [readings_append, hr]
      rfl
    · show (inserts (t ++ _)).Sublist _
      rw [inserts_append, hi]
      exact List.Sublist.refl _
  | @unroutable now t e failed =>
    obtain ⟨hr, hi⟩ := lookup_silent failed
    refine ⟨now, ?_, ?_⟩
    · show now :: readings t = _
      rw [hr]
    · show (inserts t).Sublist _
      rw [hi]
      exact List.nil_sublist _

theorem routedAll_stamps {entries : List DataRouterInsertMessage}
    {segments : List (DataRouter.Trace × DataRouter.Result Unit)}
    (h : RoutedAll config key entries segments) :
    (readings (segments.map Prod.fst).flatten).length = entries.length ∧
      (inserts (segments.map Prod.fst).flatten).Sublist
        (List.zipWith stamped entries (readings (segments.map Prod.fst).flatten)) := by
  induction h with
  | nil => exact ⟨rfl, List.Sublist.refl _⟩
  | @cons entry segment entries segments hentry _ ih =>
    obtain ⟨now, hr, hi⟩ := routed_stamps hentry
    rw [List.map_cons, List.flatten_cons, readings_append, inserts_append, hr]
    refine ⟨by simp [ih.1], ?_⟩
    exact hi.append ih.2

/-! ## Distinct stamps are accepted versions -/

theorem increasing_of_distinctStamps {entries : List DataRouterInsertMessage} {stamps : List ℤ}
    (h : DistinctStamps entries stamps) : Increasing (List.zipWith stamped entries stamps) := by
  refine List.pairwise_iff_getElem.mpr fun i j hi hj hij hid => ?_
  simp only [List.length_zipWith] at hi hj
  rw [List.getElem_zipWith, List.getElem_zipWith] at hid ⊢
  exact h i j _ _ _ _ hij (List.getElem?_eq_getElem (by omega)) (List.getElem?_eq_getElem (by omega))
    (List.getElem?_eq_getElem (by omega)) (List.getElem?_eq_getElem (by omega)) hid

theorem Increasing.nodup {messages : List BorrowedInsertMessage} (h : Increasing messages) :
    (messages.map PostgresOutputPlugin.keyOf).Nodup := by
  refine List.pairwise_map.mpr (h.imp fun {m n} hlt heq => ?_)
  simp only [PostgresOutputPlugin.keyOf, Prod.mk.injEq] at heq
  have := hlt heq.1
  omega

theorem accepted_of_increasing {messages : List BorrowedInsertMessage}
    (h : Increasing messages) : Accepted json messages := by
  intro order table hperm older
  have hnodup : (order.map PostgresOutputPlugin.keyOf).Nodup :=
    (hperm.map _).nodup_iff.mpr h.nodup
  have hfree : ∀ msg ∈ order, PostgresOutputPlugin.keyOf msg ∉ table.rows.map Row.key := by
    intro msg hmsg hmem
    obtain ⟨row, hrow, hkey⟩ := List.mem_map.mp hmem
    simp only [Row.key, PostgresOutputPlugin.keyOf, Prod.mk.injEq] at hkey
    have := older row hrow msg (hperm.mem_iff.mp hmsg) hkey.1
    omega
  obtain ⟨hresolutions, hrows⟩ :=
    PostgresOutputPlugin.storeAll_of_free json hnodup hfree
  refine ⟨hresolutions, ?_⟩
  rintro before m after row rfl hrow hlater
  have hkey : row.objectId = m.objectId ∧ row.version = m.timestamp := by
    have := PostgresOutputPlugin.key_of_rowOf hrow
    simpa only [Row.key, PostgresOutputPlugin.keyOf, Prod.mk.injEq] using this
  have hmem : m ∈ order := hperm.mem_iff.mpr (by simp)
  rw [← hkey.1]
  refine DataTable.selectMultiple_singleton ?_ ?_
  · rw [hrows]
    exact List.mem_append_right _ (List.mem_filterMap.mpr ⟨m, hmem, hrow⟩)
  · intro other hother hid
    rw [hrows] at hother
    rcases List.mem_append.mp hother with hother | hother
    · have := older other hother m (by simp) (hid.trans hkey.1)
      omega
    · obtain ⟨n, hn, hnrow⟩ := List.mem_filterMap.mp hother
      have hnkey := PostgresOutputPlugin.key_of_rowOf hnrow
      simp only [Row.key, PostgresOutputPlugin.keyOf, Prod.mk.injEq] at hnkey
      have hsame : n.objectId = m.objectId := by rw [← hnkey.1, hid, hkey.1]
      rcases List.mem_append.mp (hperm.mem_iff.mp hn) with hbefore | hn
      · have := (List.pairwise_append.mp h).2.2 n hbefore m List.mem_cons_self hsame
        omega
      · rcases List.mem_cons.mp hn with rfl | hafter
        · rw [hrow] at hnrow
          cases hnrow
          exact Int.le_refl _
        · rw [hlater n hafter hsame] at hnrow
          cases hnrow

/-! ## When the stamps are distinct -/

/-- No two entries of one object are read at the same millisecond. -/
def ReadApart (entries : List DataRouterInsertMessage) (stamps : List ℤ) : Prop :=
  ∀ (i j : ℕ) (e f : DataRouterInsertMessage) (a b : ℤ), i < j → entries[i]? = some e →
    entries[j]? = some f → stamps[i]? = some a → stamps[j]? = some b →
    e.objectId = f.objectId → a ≠ b

/-- **The versions of a batch are ordered exactly when the clock moved between the entries of each
object.** -/
theorem orderedVersions_iff_readApart (json : SerdeJson) (config : Config) (key : String)
    (entries : List DataRouterInsertMessage) (t : DataRouter.Trace) (r : DataRouter.Result Unit)
    (batch : Returns (routeEntries config key entries (.ok ())) t r)
    (nondecreasing : (readings t).Pairwise (· ≤ ·)) :
    OrderedVersions json entries t ↔ ReadApart entries (readings t) := by
  constructor
  · intro h i j e f a b hij he hf ha hb hid
    exact Int.ne_of_lt (h.distinct i j e f a b hij he hf ha hb hid)
  · intro h
    have hdistinct : DistinctStamps entries (readings t) := by
      intro i j e f a b hij he hf ha hb hid
      have hne := h i j e f a b hij he hf ha hb hid
      obtain ⟨hi, rfl⟩ := List.getElem?_eq_some_iff.mp ha
      obtain ⟨hj, rfl⟩ := List.getElem?_eq_some_iff.mp hb
      have hle := List.pairwise_iff_getElem.mp nondecreasing i j hi hj hij
      omega
    obtain ⟨segments, hall, rfl, _⟩ := returns_routeEntries.mp batch
    have hsub := (routedAll_stamps hall).2
    have hincreasing := (increasing_of_distinctStamps hdistinct).sublist hsub
    exact ⟨hdistinct, hsub, hincreasing, accepted_of_increasing hincreasing⟩

/-- The calls of two entries of one object whose topics are in the cache. -/
def twoEntries (first second : ℤ) : DataRouter.Trace :=
  [⟨.currentTimestamp, first⟩, ⟨.cacheGetMut 0, some "topic"⟩,
    published "topic" "" (.insert (stamped sampleEntry first)),
    ⟨.currentTimestamp, second⟩, ⟨.cacheGetMut 0, some "topic"⟩,
    published "topic" "" (.insert (stamped sampleEntry second))]

theorem returns_twoEntries (first second : ℤ) : Returns
    (routeEntries ⟨"errors", "registry"⟩ "" [sampleEntry, sampleEntry] (.ok ()))
    (twoEntries first second) (.ok ()) :=
  .call (.call (.call (.call (.call (.call (.refl _))))))

theorem orderedVersions_two_readings :
    OrderedVersions sampleJson [sampleEntry, sampleEntry] (twoEntries 1 2) :=
  (orderedVersions_iff_readApart sampleJson ⟨"errors", "registry"⟩ "" _ _ _
    (returns_twoEntries 1 2) (by decide)).mpr (by
      intro i j e f a b hij _ _ ha hb _
      match i, j with
      | 0, 1 => cases ha; cases hb; decide
      | 0, _ + 2 => cases hb
      | 1, _ + 2 => cases hb
      | _ + 2, _ => cases ha)

/-- Two entries of one object within a millisecond. -/
theorem not_orderedVersions_same_reading : ¬ ∀ (entries : List DataRouterInsertMessage) (t : _)
    (r : _), Returns (routeEntries ⟨"errors", "registry"⟩ "" entries (.ok ())) t r →
      (readings t).Pairwise (· ≤ ·) → OrderedVersions sampleJson entries t := by
  intro h
  have hdistinct := (h _ _ _ (returns_twoEntries 1 1) (by decide)).distinct
  exact absurd (hdistinct 0 1 sampleEntry sampleEntry 1 1 (by decide) rfl rfl rfl rfl rfl)
    (by decide)

end CommonDataLayer
