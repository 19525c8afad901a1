import CommonDataLayer.Foundations.FirstWins
import CommonDataLayer.QueryService.ConcurrentQueries
import CommonDataLayer.Versions

/-! # Messages that are delivered in any order and again

The queue delivers every insert message at least once, and messages of different groups in any order.
The table keeps the first row of each object and version, and refuses the others.

* `converges_iff`: all deliveries of the same messages leave the same rows, exactly if no two of them
  give one object different rows of one version.
* `lastRouted_shown`: so when the router read the clock apart, the queries show of every object what
  the last entry of the batch said, whatever the deliveries were.
-/
namespace CommonDataLayer.CommandService
open Interaction Postgres FirstWins PostgresOutputPlugin GroupedMax
open QueryService hiding onTable Call Answer
set_option autoImplicit false

/-- The table after the messages were handled one after the other. -/
def stored (json : SerdeJson) (deliveries : List BorrowedInsertMessage) : DataTable :=
  (storeAll json deliveries .empty).2

/-- No two of the messages have different rows under one key. -/
def Unambiguous (json : SerdeJson) (messages : List BorrowedInsertMessage) : Prop :=
  ∀ m ∈ messages, ∀ n ∈ messages, ∀ row other, rowOf json m = some row → rowOf json n = some other →
    row.key = other.key → row = other

variable {json : SerdeJson} {messages deliveries : List BorrowedInsertMessage}

/-! ## What is stored -/

theorem rows_store (msg : BorrowedInsertMessage) (table : DataTable) :
    (store json msg table).2.rows = (rowOf json msg).toList.foldl (FirstWins.insert Row.key) table.rows := by
  unfold store handleMessage rowOf
  cases json.value msg.data.get with
  | error e => rfl
  | ok payload =>
    show _ = FirstWins.insert Row.key table.rows (toRow msg payload)
    rw [FirstWins.insert]
    by_cases htaken : (toRow msg payload).key ∈ table.rows.map Row.key
    · have hrefused : table.insert (toRow msg payload) = .error DataTable.uniqueViolation := dif_pos htaken
      rw [if_pos htaken]
      simp [getConnection, insertRow, Program.perform, onTable, hrefused]
    · obtain ⟨table', htable⟩ : ∃ table', table.insert (toRow msg payload) = .ok table' :=
        ⟨_, dif_neg htaken⟩
      rw [if_neg htaken, ← (DataTable.insert_eq_ok.mp htable).2]
      simp [getConnection, insertRow, Program.perform, onTable, htable]

theorem mem_store {msg : BorrowedInsertMessage} {table : DataTable} {row : Row}
    (h : row ∈ (store json msg table).2.rows) : row ∈ table.rows ∨ rowOf json msg = some row := by
  rw [rows_store] at h
  cases hrow : rowOf json msg with
  | none =>
    rw [hrow] at h
    exact .inl h
  | some new =>
    have h : row ∈ FirstWins.insert Row.key table.rows new := by rwa [hrow] at h
    rw [FirstWins.insert] at h
    split at h
    · exact .inl h
    · simpa [eq_comm] using h

theorem rows_storeAll (deliveries : List BorrowedInsertMessage) (table : DataTable) :
    (storeAll json deliveries table).2.rows =
      (deliveries.filterMap (rowOf json)).foldl (FirstWins.insert Row.key) table.rows := by
  induction deliveries generalizing table with
  | nil => rfl
  | cons msg rest ih =>
    refine (ih (store json msg table).2).trans ?_
    rw [rows_store, List.filterMap_cons]
    cases rowOf json msg <;> rfl

theorem rows_stored (deliveries : List BorrowedInsertMessage) :
    (stored json deliveries).rows = firstWins Row.key (deliveries.filterMap (rowOf json)) :=
  rows_storeAll deliveries .empty

theorem rows_nodup (table : DataTable) : table.rows.Nodup := table.primaryKey.of_map _

/-! ## Which deliveries leave the same rows -/

/-- Every delivery of the messages leaves the same rows. -/
def Converges (json : SerdeJson) (messages : List BorrowedInsertMessage) : Prop :=
  ∀ first second, SameRecords first messages → SameRecords second messages →
    (stored json first).rows.Perm (stored json second).rows

theorem Unambiguous.oneOfEach (h : Unambiguous json messages) :
    OneOfEach Row.key (messages.filterMap (rowOf json)) := by
  intro row hrow other hother hkey
  obtain ⟨m, hm, hrow⟩ := List.mem_filterMap.mp hrow
  obtain ⟨n, hn, hother⟩ := List.mem_filterMap.mp hother
  exact h m hm n hn row other hrow hother hkey

theorem SameRecords.filterMap {α β : Type} {records records' : List α} (h : SameRecords records records')
    (f : α → Option β) : SameRecords (records.filterMap f) (records'.filterMap f) := fun b => by
  simp only [List.mem_filterMap, h _]

/-- All rows are stored, each once. -/
theorem mem_stored (h : Unambiguous json messages) (hdeliveries : SameRecords deliveries messages) {row : Row} :
    row ∈ (stored json deliveries).rows ↔ row ∈ messages.filterMap (rowOf json) := by
  have hunambiguous : Unambiguous json deliveries := fun m hm n hn =>
    h m ((hdeliveries m).mp hm) n ((hdeliveries n).mp hn)
  rw [rows_stored, mem_firstWins hunambiguous.oneOfEach]
  exact SameRecords.filterMap hdeliveries (rowOf json) row

/-- The first message that is delivered has its row stored. -/
theorem mem_stored_cons {m : BorrowedInsertMessage} {row : Row} (hrow : rowOf json m = some row) :
    row ∈ (stored json (m :: messages)).rows := by
  rw [rows_stored, List.filterMap_cons, hrow]
  exact mem_firstWins_cons row

/-- **All deliveries of the same messages leave the same rows, exactly if no two of the messages give an
object different rows of one version.** -/
theorem converges_iff (json : SerdeJson) (messages : List BorrowedInsertMessage) :
    Converges json messages ↔ Unambiguous json messages := by
  constructor
  · intro hconverges m hm n hn row other hrow hother hkey
    have hperm := hconverges _ _ (SameRecords.cons hm) (SameRecords.cons hn)
    exact List.inj_on_of_nodup_map (stored json (n :: messages)).primaryKey
      (hperm.mem_iff.mp (mem_stored_cons hrow)) (mem_stored_cons hother) hkey
  · intro h first second hfirst hsecond
    refine (List.perm_ext_iff_of_nodup (rows_nodup _) (rows_nodup _)).mpr ?_
    rw [rows_stored, rows_stored]
    exact firstWins_iff.mpr h.oneOfEach _ _ (SameRecords.filterMap hfirst _)
      (SameRecords.filterMap hsecond _)

/-! ## The last entry of an object -/

/-- The row of the last message of an object, among those whose document parses. -/
def lastRow (json : SerdeJson) (messages : List BorrowedInsertMessage) (id : Uuid) : Option Row :=
  ((messages.filterMap (rowOf json)).filter fun row => row.objectId = id).getLast?

theorem Increasing.unambiguous (h : Increasing messages) : Unambiguous json messages := by
  intro m hm n hn row other hrow hother hkey
  have hsame : m = n := by
    refine List.inj_on_of_nodup_map h.nodup hm hn ?_
    rw [← key_of_rowOf hrow, ← key_of_rowOf hother, hkey]
  rw [hsame, hother] at hrow
  exact (Option.some.inj hrow).symm

/-- The rows of an object, in the order of its messages. -/
theorem history_stored (h : Increasing messages) (hdeliveries : SameRecords deliveries messages) (id : Uuid) :
    (stored json deliveries).history id =
      (messages.filterMap (rowOf json)).filter fun row => row.objectId = id := by
  refine DataTable.history_eq ?_ fun row => ?_
  · refine List.pairwise_filter.mpr (List.pairwise_filterMap.mpr (h.imp ?_))
    intro m n hless row hrow other hother hid hid'
    obtain ⟨hobject, hversion⟩ := Prod.mk.inj (key_of_rowOf hrow)
    obtain ⟨hobject', hversion'⟩ := Prod.mk.inj (key_of_rowOf hother)
    rw [hversion, hversion']
    exact hless (by rw [← hobject, ← hobject', of_decide_eq_true hid, of_decide_eq_true hid'])
  · rw [mem_stored (Increasing.unambiguous h) hdeliveries, List.mem_filter, decide_eq_true_eq]

theorem newest_stored (h : Increasing messages) (hdeliveries : SameRecords deliveries messages) (id : Uuid) :
    (stored json deliveries).newest id = lastRow json messages id := by
  rw [DataTable.newest, history_stored h hdeliveries]
  rfl

/-! ## From the router to the queries -/

/-- A request that the router has handled, with its calls. -/
structure RoutedRequest (config : DataRouter.Config) where
  key : String
  request : DataRouter.Request
  calls : DataRouter.Trace
  result : DataRouter.Result Unit
  returned : Returns (DataRouter.routeRequest config key request) calls result

namespace RoutedRequest
variable {config : DataRouter.Config} (requests : List (RoutedRequest config))

def allEntries : List DataRouterInsertMessage := requests.flatMap fun r => r.request.entries

def allCalls : DataRouter.Trace := requests.flatMap RoutedRequest.calls

/-- One reading for each entry, and at most its message. -/
theorem stamps : (readings (allCalls requests)).length = (allEntries requests).length ∧
    (inserts (allCalls requests)).Sublist
      (List.zipWith DataRouter.stamped (allEntries requests) (readings (allCalls requests))) := by
  induction requests with
  | nil => exact ⟨rfl, .refl _⟩
  | cons first rest ih =>
    obtain ⟨segments, hall, hcalls, -⟩ := DataRouter.returns_routeRequest.mp first.returned
    obtain ⟨hlength, hsub⟩ := routedAll_stamps hall
    rw [← hcalls] at hlength hsub
    rw [allCalls, allEntries, List.flatMap_cons, List.flatMap_cons, readings_append, inserts_append,
      List.zipWith_append hlength.symm]
    refine ⟨?_, hsub.append ih.2⟩
    rw [List.length_append, List.length_append, hlength]
    exact congrArg _ ih.1

/-- Entries that were read apart leave messages with increasing versions. -/
theorem increasing (hclock : (readings (allCalls requests)).Pairwise (· ≤ ·))
    (hapart : ReadApart (allEntries requests) (readings (allCalls requests))) :
    Increasing (inserts (allCalls requests)) := by
  refine (increasing_of_distinctStamps ?_).sublist (stamps requests).2
  intro i j e f a b hij he hf ha hb hid
  have hne : a ≠ b := hapart i j e f a b hij he hf ha hb hid
  obtain ⟨hi, rfl⟩ := List.getElem?_eq_some_iff.mp ha
  obtain ⟨hj, rfl⟩ := List.getElem?_eq_some_iff.mp hb
  exact lt_of_le_of_ne (List.pairwise_iff_getElem.mp hclock i j hi hj hij) hne

end RoutedRequest

/-- **What was routed last is shown.** However often and in whatever order the messages are delivered,
both queries show of each object the last message that was published for it. -/
theorem lastRouted_shown (json : SerdeJson) (formats : Formats) {config : DataRouter.Config}
    (requests : List (RoutedRequest config))
    (hclock : (readings (RoutedRequest.allCalls requests)).Pairwise (· ≤ ·))
    (hapart : ReadApart (RoutedRequest.allEntries requests) (readings (RoutedRequest.allCalls requests)))
    (deliveries : List BorrowedInsertMessage)
    (hdeliveries : SameRecords deliveries (inserts (RoutedRequest.allCalls requests)))
    (order : List Row → List Row) (horder : ∀ rows, (order rows).Perm rows) :
    (∀ texts ids, texts.mapM formats.parseUuid = .ok ids →
      ∃ values, answer order (queryMultiple formats texts) (stored json deliveries) = .ok values ∧
        Tells formats (fun id => if id ∈ ids then lastRow json (inserts (RoutedRequest.allCalls requests)) id
          else none) values) ∧
    ∀ text schemaId, formats.parseUuid text = .ok schemaId →
      ∃ values, answer order (queryBySchema formats text) (stored json deliveries) = .ok values ∧
        Tells formats (fun id => (lastRow json (inserts (RoutedRequest.allCalls requests)) id).filter
          fun row => row.schemaId = schemaId) values := by
  have hnewest (id : Uuid) : (stored json deliveries).newest id =
      lastRow json (inserts (RoutedRequest.allCalls requests)) id :=
    newest_stored (RoutedRequest.increasing requests hclock hapart) hdeliveries id
  constructor
  · intro texts ids hids
    obtain ⟨values, hvalues, htells⟩ := tells_queryMultiple horder hids
    have hshown : newestOf (stored json deliveries) ids = fun id => if id ∈ ids then
        lastRow json (inserts (RoutedRequest.allCalls requests)) id else none := by
      funext id
      simp [newestOf, hnewest]
    exact ⟨values, hvalues, hshown ▸ htells⟩
  · intro text schemaId hschema
    obtain ⟨values, hvalues, htells⟩ := tells_queryBySchema horder hschema
    refine ⟨values, hvalues, ?_⟩
    simp only [← hnewest]
    exact htells

/-- A long document of an object and then a short one, which the cache has a topic for. -/
def twoDocuments : RoutedRequest ⟨"errors", "registry"⟩ where
  key := ""
  request := .multi [{ sampleEntry with data := ⟨sampleText⟩ }, sampleEntry]
  calls := [⟨.currentTimestamp, (1 : ℤ)⟩, ⟨.cacheGetMut 0, some "topic"⟩,
    DataRouter.published "topic" "" (.insert ⟨0, 0, 1, ⟨sampleText⟩⟩),
    ⟨.currentTimestamp, (2 : ℤ)⟩, ⟨.cacheGetMut 0, some "topic"⟩,
    DataRouter.published "topic" "" (.insert ⟨0, 0, 2, ⟨"1"⟩⟩)]
  result := .ok ()
  returned := .call (.call (.call (.call (.call (.call (.refl _))))))

def numberFormats : Formats where
  parseUuid text := if text = Uuid.toText 0 then .ok 0 else .error "invalid length"
  toBytes
    | .number (.posInt 1) => "1".toUTF8.toList
    | _ => "null".toUTF8.toList

/-- The long document is delivered again after the short one. -/
theorem lastRouted_shown_twoDocuments : ∃ values,
    answer List.reverse (queryBySchema numberFormats (Uuid.toText 0))
      (stored sampleJson [⟨0, 0, 2, ⟨"1"⟩⟩, ⟨0, 0, 1, ⟨sampleText⟩⟩, ⟨0, 0, 2, ⟨"1"⟩⟩]) = .ok values ∧
    values (Uuid.toText 0) = some "1".toUTF8.toList := by
  have hapart : ReadApart (RoutedRequest.allEntries [twoDocuments])
      (readings (RoutedRequest.allCalls [twoDocuments])) := by
    intro i j e f a b hij _ _ ha hb _
    match i, j with
    | 0, 1 => cases ha; cases hb; decide
    | 0, _ + 2 => cases hb
    | 1, _ + 2 => cases hb
    | _ + 2, _ => cases ha
  have hdeliveries : SameRecords [⟨0, 0, 2, ⟨"1"⟩⟩, ⟨0, 0, 1, ⟨sampleText⟩⟩, ⟨0, 0, 2, ⟨"1"⟩⟩]
      (inserts (RoutedRequest.allCalls [twoDocuments])) := by
    intro m
    show m ∈ _ ↔ m ∈ [⟨0, 0, 1, ⟨sampleText⟩⟩, ⟨0, 0, 2, ⟨"1"⟩⟩]
    simp only [List.mem_cons, List.not_mem_nil, or_false]
    tauto
  obtain ⟨values, hvalues, htells⟩ := (lastRouted_shown sampleJson numberFormats [twoDocuments]
    (by decide) hapart _ hdeliveries _ List.reverse_perm).2 (Uuid.toText 0) 0 (by simp [numberFormats])
  exact ⟨values, hvalues, (htells _ _).mpr ⟨0, ⟨0, 2, 0, .number (.posInt 1)⟩, rfl, rfl, rfl⟩⟩

end CommonDataLayer.CommandService
