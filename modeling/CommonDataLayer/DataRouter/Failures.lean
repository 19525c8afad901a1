import Mathlib.Data.List.Induction
import CommonDataLayer.DataRouter.Delivery

/-! # The failures of a batch

Every entry that is not routed has an error, the answer of the registry or of its connection. The
loop keeps the last one, and one report is published. So all errors of a batch are reported exactly
if there is only one (`failuresReported_iff`).
-/
namespace CommonDataLayer

/-- The debug text of an error shows the errors below its contexts. -/
def AnyhowError.Shows (e : AnyhowError) : AnyhowError → Prop
  | .root display => e = .root display
  | .context text source => e = .context text source ∨ e.Shows source

namespace DataRouter
open Interaction MessagingSystem
set_option autoImplicit false

/-- An answer for which an entry is not routed. -/
def failure : Event Answer → Option String
  | ⟨.connect _, .error e⟩ => some e
  | ⟨.getSchemaTopic _, .error e⟩ => some e
  | _ => none

def failures (t : Trace) : List String := t.filterMap failure

def errorOf : Result Unit → Option AnyhowError
  | .error e => some e
  | .ok () => none

/-- The error topic has a report that shows the error. -/
def ReportedError (config : Config) (t : Trace) (e : AnyhowError) : Prop :=
  ∃ report, published config.errorTopicOrExchange serviceName (.report report) ∈ t ∧ e.Shows report

/-- Every entry that was not routed has its error reported. -/
def FailuresReported (config : Config) (key : String) (request : Request) (t : Trace) : Prop :=
  ∀ segments, RoutedAll config key request.entries segments →
    (segments.map Prod.fst).flatten <+: t →
    ∀ segment ∈ segments, ∀ e, segment.2 = .error e → ReportedError config t e

variable {json : SerdeJson} {config : Config} {message : CommunicationMessage} {t : Trace} {key : String}

/-! ## What is kept of the results -/

theorem lastResult_eq (result : Result Unit) (results : List (Result Unit)) :
    lastResult result results =
      match (results.filterMap errorOf).getLast? with
      | none => result
      | some e => withContext "Tried to send message and failed" (.error e) := by
  induction results using List.reverseRecOn with
  | nil => rfl
  | append_singleton results r ih =>
    have hsplit : lastResult result (results ++ [r]) = lastResult (lastResult result results) [r] :=
      List.foldl_append
    rw [hsplit, ih, List.filterMap_append]
    cases r with
    | ok _ => simp [lastResult, withContext, errorOf]
    | error e => simp [lastResult, withContext, errorOf]

theorem failures_lookup {schemaId : Uuid} {found : Result String} (h : Lookup config schemaId t found) :
    (failures t).map AnyhowError.root = (errorOf (found.map fun _ => ())).toList := by
  cases h <;> rfl

theorem failures_routed {entry : DataRouterInsertMessage} {r : Result Unit}
    (h : Routed config key entry t r) :
    (failures t).map AnyhowError.root = (errorOf r).toList := by
  cases h with
  | @published now t topic found =>
    rw [failures, List.filterMap_cons_none rfl, List.filterMap_append, ← failures, List.map_append,
      failures_lookup found]
    rfl
  | @unroutable now t e failed =>
    rw [failures, List.filterMap_cons_none rfl, ← failures, failures_lookup failed]
    rfl

/-- The failures are the errors of the entries. -/
theorem failures_routedAll {entries : List DataRouterInsertMessage}
    {segments : List (Trace × Result Unit)} (h : RoutedAll config key entries segments) :
    (failures (segments.map Prod.fst).flatten).map AnyhowError.root =
      (segments.map Prod.snd).filterMap errorOf := by
  induction h with
  | nil => rfl
  | @cons entry segment entries segments hentry _ ih =>
    rw [List.map_cons, List.flatten_cons, failures, List.filterMap_append, ← failures, ← failures,
      List.map_append, failures_routed hentry, ih, List.map_cons, List.filterMap_cons]
    cases errorOf segment.2 <;> rfl

/-- Among the calls of the entries there are no reports. -/
theorem not_report_mem {entries : List DataRouterInsertMessage} {segments : List (Trace × Result Unit)}
    (h : RoutedAll config key entries segments) {topic key' : String} {e : AnyhowError} :
    published topic key' (.report e) ∉ (segments.map Prod.fst).flatten := by
  have hlookup {t : Trace} {schemaId : Uuid} {found : Result String}
      (h : Lookup config schemaId t found) : published topic key' (.report e) ∉ t := by
    cases h <;> simp [published]
  induction h with
  | nil => simp
  | @cons entry segment entries segments hentry _ ih =>
    rw [List.map_cons, List.flatten_cons, List.mem_append]
    refine not_or.mpr ⟨?_, ih⟩
    obtain ⟨calls, r⟩ := segment
    cases hentry with
    | published found => simpa [published] using hlookup found
    | unroutable failed => simpa [published] using hlookup failed

/-! ## Up to the acknowledgement -/

/-- The report of the last error. -/
def lastReport (config : Config) (last : Option AnyhowError) : Trace :=
  (last.map fun e => published config.errorTopicOrExchange serviceName
    (.report (.context "Tried to send message and failed" e))).toList

/-- The calls before the acknowledgement: those of the entries, and the report of the last error. -/
theorem steps_batch {request : Request} (hparse : parseRequest json message = .ok request)
    {next : Except Error Unit → Task Unit}
    (h : Steps (handleMessage json config message) t (.call .ack next)) :
    ∃ segments, RoutedAll config (messageKey message) request.entries segments ∧
      t = (segments.map Prod.fst).flatten ++
        lastReport config ((segments.map Prod.snd).filterMap errorOf).getLast? := by
  unfold handleMessage at h
  rw [hparse] at h
  obtain ⟨r, t₁, t₂, rfl, h₁, h₂⟩ := steps_bind_call all_routeRequest (by simp) h
  obtain ⟨segments, hall, rfl, rfl⟩ := returns_routeRequest.mp h₁
  refine ⟨segments, hall, ?_⟩
  have hfinish := steps_finishMessage_ack h₂
  rw [lastResult_eq] at hfinish
  cases hlast : ((segments.map Prod.snd).filterMap errorOf).getLast? with
  | none =>
    rw [hlast] at hfinish
    rcases hfinish with ⟨-, rfl⟩ | ⟨e, he, -⟩
    · rfl
    · cases he
  | some last =>
    rw [hlast] at hfinish
    rcases hfinish with ⟨hok, -⟩ | ⟨e, he, rfl⟩
    · cases hok
    · cases he
      rfl

theorem failures_lastReport (before : Trace) (last : Option AnyhowError) :
    failures (before ++ lastReport config last) = failures before := by
  rw [failures, List.filterMap_append, ← failures]
  cases last <;> exact List.append_nil _

theorem reportedError_lastReport {before : Trace} (hnone : ∀ e, published config.errorTopicOrExchange
    serviceName (.report e) ∉ before) {last : Option AnyhowError} {display : String} :
    ReportedError config (before ++ lastReport config last) (.root display) ↔
      ∃ e, last = some e ∧ (AnyhowError.root display).Shows e := by
  constructor
  · rintro ⟨report, hmem, hshows⟩
    rcases List.mem_append.mp hmem with hmem | hmem
    · exact absurd hmem (hnone report)
    · obtain ⟨e, rfl, heq⟩ := Option.map_eq_some_iff.mp (Option.mem_toList.mp hmem)
      obtain rfl : AnyhowError.context "Tried to send message and failed" e = report := by
        simpa [published] using heq
      rcases hshows with hshows | hshows
      · cases hshows
      · exact ⟨e, rfl, hshows⟩
  · rintro ⟨e, rfl, hshows⟩
    exact ⟨_, List.mem_append_right _ (List.mem_singleton_self _), .inr hshows⟩

/-- An error of an entry is a failure, and the other way around. -/
theorem mem_failures {entries : List DataRouterInsertMessage} {segments : List (Trace × Result Unit)}
    (h : RoutedAll config key entries segments) {e : AnyhowError} :
    e ∈ (segments.map Prod.snd).filterMap errorOf ↔
      ∃ display ∈ failures (segments.map Prod.fst).flatten, .root display = e := by
  rw [← failures_routedAll h, List.mem_map]

theorem mem_errors {segments : List (Trace × Result Unit)} {e : AnyhowError} :
    e ∈ (segments.map Prod.snd).filterMap errorOf ↔ ∃ segment ∈ segments, segment.2 = .error e := by
  have herror (r : Result Unit) : errorOf r = some e ↔ r = .error e := by
    cases r <;> simp [errorOf]
  simp only [List.mem_filterMap, List.mem_map, herror, exists_exists_and_eq_and]

variable {request : Request} {next : Except Error Unit → Task Unit}

/-- What is reported is the last failure. -/
theorem failures_eq (hparse : parseRequest json message = .ok request)
    (h : Steps (handleMessage json config message) t (.call .ack next))
    (hreported : FailuresReported config (messageKey message) request t) :
    ∀ e ∈ failures t, ∀ e' ∈ failures t, e = e' := by
  obtain ⟨segments, hall, rfl⟩ := steps_batch hparse h
  rw [failures_lastReport]
  have hlast {e : String} (he : e ∈ failures (segments.map Prod.fst).flatten) :
      ((segments.map Prod.snd).filterMap errorOf).getLast? = some (.root e) := by
    obtain ⟨segment, hsegment, herror⟩ := mem_errors.mp ((mem_failures hall).mpr ⟨e, he, rfl⟩)
    have hshown := hreported segments hall (List.prefix_append _ _) segment hsegment _ herror
    obtain ⟨last, hlast, hshows⟩ := (reportedError_lastReport fun e => not_report_mem hall).mp hshown
    obtain ⟨display, -, rfl⟩ := (mem_failures hall).mp (List.mem_of_getLast? hlast)
    rw [hlast, show AnyhowError.root e = .root display from hshows]
  intro e he e' he'
  have hsame := (hlast he).symm.trans (hlast he')
  cases hsame
  rfl

theorem failuresReported_of_eq (hparse : parseRequest json message = .ok request)
    (h : Steps (handleMessage json config message) t (.call .ack next))
    (hsame : ∀ e ∈ failures t, ∀ e' ∈ failures t, e = e') :
    FailuresReported config (messageKey message) request t := by
  obtain ⟨segments, hall, rfl⟩ := steps_batch hparse h
  rw [failures_lastReport] at hsame
  intro segments' hall' hearlier segment hsegment e herror
  obtain ⟨display, hdisplay, rfl⟩ := (mem_failures hall').mp (mem_errors.mpr ⟨segment, hsegment, herror⟩)
  have hfailure : display ∈ failures (segments.map Prod.fst).flatten := by
    rw [← failures_lastReport]
    exact (hearlier.filterMap failure).subset hdisplay
  have hne : (segments.map Prod.snd).filterMap errorOf ≠ [] :=
    List.ne_nil_of_mem ((mem_failures hall).mpr ⟨display, hfailure, rfl⟩)
  obtain ⟨display', hdisplay', heq⟩ := (mem_failures hall).mp (List.getLast_mem hne)
  refine (reportedError_lastReport fun e => not_report_mem hall).mpr
    ⟨_, List.getLast?_eq_some_getLast hne, ?_⟩
  rw [← heq, hsame display hfailure display' hdisplay']
  rfl

/-- **All failures of a batch are reported before it is acknowledged exactly if they are the same.** -/
theorem failuresReported_iff (hparse : parseRequest json message = .ok request)
    (h : Steps (handleMessage json config message) t (.call .ack next)) :
    FailuresReported config (messageKey message) request t ↔
      ∀ e ∈ failures t, ∀ e' ∈ failures t, e = e' :=
  ⟨failures_eq hparse h, failuresReported_of_eq hparse h⟩

/-! ### Two entries -/

def batch : CommunicationMessage where
  key := .ok ""
  payload := .ok "[\x7b..\x7d, \x7b..\x7d]"

def batchEntries : List DataRouterInsertMessage := [⟨0, 1, ⟨"1"⟩⟩, ⟨0, 2, ⟨"1"⟩⟩]

def batchJson : SerdeJson where
  value _ := .ok (.array [])
  routerMessage _ := .error "invalid type: sequence"
  routerMessages _ := .ok batchEntries
  insertMessage _ := .error "invalid type: sequence"
  rawValue _ := .error "invalid type: sequence"

def batchConfig : Config where
  errorTopicOrExchange := "cdl.error"
  schemaRegistryAddr := "http://localhost:50101"

/-- The calls of an entry whose schema the registry refuses. -/
def refusedCalls (schemaId : Uuid) (e : String) : Trace :=
  [⟨.currentTimestamp, (0 : ℤ)⟩, ⟨.cacheGetMut schemaId, none⟩,
    ⟨.connect batchConfig.schemaRegistryAddr, .ok ()⟩, ⟨.getSchemaTopic schemaId.toText, .error e⟩]

theorem steps_refused (first second : String) : ∃ t next, failures t = [first, second] ∧
    Steps (handleMessage batchJson batchConfig batch) t (.call .ack next) := by
  have hall : RoutedAll batchConfig "" batchEntries [(refusedCalls 1 first, .error (.root first)),
      (refusedCalls 2 second, .error (.root second))] :=
    .cons (.unroutable (.refused first)) (.cons (.unroutable (.refused second)) .nil)
  have hroute : Returns (routeRequest batchConfig "" (.multi batchEntries)) _ _ :=
    returns_routeRequest.mpr ⟨_, hall, rfl, rfl⟩
  have hreport : Steps (finishMessage batchConfig (.error (.context "Tried to send message and failed"
      (.root second)))) [published batchConfig.errorTopicOrExchange serviceName _] (.call .ack _) :=
    .call (.refl _)
  exact ⟨_, _, rfl, (hroute.bind (finishMessage batchConfig)).trans hreport⟩

/-- Both schemas are unknown. -/
theorem failuresReported_same : ∃ t next,
    Steps (handleMessage batchJson batchConfig batch) t (.call .ack next) ∧
      FailuresReported batchConfig "" (.multi batchEntries) t := by
  obtain ⟨t, next, hfailures, hsteps⟩ := steps_refused "not found" "not found"
  refine ⟨t, next, hsteps, (failuresReported_iff rfl hsteps).mpr ?_⟩
  simp [hfailures]

/-- The first entry fails for one reason and the second one for another. -/
theorem failure_not_reported : ¬ ∀ t next,
    Steps (handleMessage batchJson batchConfig batch) t (.call .ack next) →
      FailuresReported batchConfig "" (.multi batchEntries) t := by
  intro h
  obtain ⟨t, next, hfailures, hsteps⟩ := steps_refused "not found" "unavailable"
  have hsame := failures_eq rfl hsteps (h t next hsteps)
  rw [hfailures] at hsame
  exact absurd (hsame "not found" (by simp) "unavailable" (by simp)) (by decide)

end DataRouter
end CommonDataLayer
