import Mathlib.Data.List.Forall2
import CommonDataLayer.DataRouter.Main

/-! # What the router's calls amount to

One specification for each function of the router, in terms of the calls it makes and their
answers, up to what a message's task has done by the time it acknowledges the message.

* `Lookup`: the calls that look a topic up, and what they yield.
* `Routed`: the calls that route one entry: a reading of the clock, a lookup and, when it yields
  a topic, a confirmed publish.
* `Carries`, `Malformed`: the entries of a payload, or what is wrong with it, as the parsers of
  `serde_json` say. `parseRequest` finds out which (`carries_iff`, `malformed_iff`).
* `Delivered`: the entries were routed one after the other, and a report was published for a
  payload that could not be parsed or an entry that could not be routed.
-/
namespace CommonDataLayer.DataRouter
open Interaction MessagingSystem
set_option autoImplicit false

abbrev Trace : Type := List (Event Answer)

variable {config : Config} {json : SerdeJson}

/-- A confirmed publish. -/
def published (topic key : String) (payload : Payload) : Event Answer :=
  ⟨.publishMessage topic key payload, .ok ()⟩

def stamped (entry : DataRouterInsertMessage) (now : ℤ) : BorrowedInsertMessage :=
  { objectId := entry.objectId, schemaId := entry.schemaId, timestamp := now, data := entry.data }

inductive Lookup (config : Config) (schemaId : Uuid) : Trace → Result String → Prop where
  | cached (topic : String) :
      Lookup config schemaId [⟨.cacheGetMut schemaId, some topic⟩] (.ok topic)
  | unreachable (e : String) :
      Lookup config schemaId [⟨.cacheGetMut schemaId, none⟩,
        ⟨.connect config.schemaRegistryAddr, .error e⟩] (.error (.root e))
  | refused (e : String) :
      Lookup config schemaId [⟨.cacheGetMut schemaId, none⟩,
        ⟨.connect config.schemaRegistryAddr, .ok ()⟩,
        ⟨.getSchemaTopic schemaId.toText, .error e⟩] (.error (.root e))
  | fetched (topic : String) :
      Lookup config schemaId [⟨.cacheGetMut schemaId, none⟩,
        ⟨.connect config.schemaRegistryAddr, .ok ()⟩, ⟨.getSchemaTopic schemaId.toText, .ok topic⟩,
        ⟨.cacheInsert schemaId topic, ()⟩] (.ok topic)

inductive Routed (config : Config) (key : String) (entry : DataRouterInsertMessage) :
    Trace → Result Unit → Prop where
  | published {now : ℤ} {t : Trace} {topic : String}
      (found : Lookup config entry.schemaId t (.ok topic)) :
      Routed config key entry (⟨.currentTimestamp, now⟩ :: (t ++
        [DataRouter.published topic key (.insert (stamped entry now))])) (.ok ())
  | unroutable {now : ℤ} {t : Trace} {e : AnyhowError}
      (failed : Lookup config entry.schemaId t (.error e)) :
      Routed config key entry (⟨.currentTimestamp, now⟩ :: t) (.error e)

/-! ## One entry -/

theorem returns_sendMessage {topic key : String} {payload : Payload} {t : Trace} {u : Unit} :
    Returns (sendMessage topic key payload) t u ↔ t = [published topic key payload] := by
  constructor
  · intro h
    obtain ⟨r, t₁, t₂, rfl, h₁, h₂⟩ := returns_bind.mp h
    obtain rfl := returns_perform.mp h₁
    cases r with
    | error e =>
      cases h₂ with
      | @call _ _ a => exact a.elim
    | ok _ =>
      obtain ⟨rfl, _⟩ := steps_ret.mp h₂
      rfl
  · rintro rfl
    exact .call (.refl _)

theorem returns_getSchemaTopic {schemaId : Uuid} {t : Trace} {r : Result String} :
    Returns (getSchemaTopic config schemaId) t r ↔ Lookup config schemaId t r := by
  constructor
  · intro h
    obtain ⟨cached, t₁, t₂, rfl, h₁, h₂⟩ := returns_bind.mp h
    obtain rfl := returns_perform.mp h₁
    cases cached with
    | some topic =>
      obtain ⟨rfl, hr⟩ := steps_ret.mp h₂
      cases hr
      exact .cached topic
    | none =>
      obtain ⟨client, t₃, t₄, rfl, h₃, h₄⟩ := returns_bind.mp h₂
      obtain rfl := returns_perform.mp h₃
      cases client with
      | error e =>
        obtain ⟨rfl, hr⟩ := steps_ret.mp h₄
        cases hr
        exact .unreachable e
      | ok _ =>
        obtain ⟨answer, t₅, t₆, rfl, h₅, h₆⟩ := returns_bind.mp h₄
        obtain rfl := returns_perform.mp h₅
        cases answer with
        | error e =>
          obtain ⟨rfl, hr⟩ := steps_ret.mp h₆
          cases hr
          exact .refused e
        | ok topic =>
          obtain ⟨_, t₇, t₈, rfl, h₇, h₈⟩ := returns_bind.mp h₆
          obtain rfl := returns_perform.mp h₇
          obtain ⟨rfl, hr⟩ := steps_ret.mp h₈
          cases hr
          exact .fetched topic
  · intro h
    cases h with
    | cached topic => exact .call (.refl _)
    | unreachable e => exact .call (.call (.refl _))
    | refused e => exact .call (.call (.call (.refl _)))
    | fetched topic => exact .call (.call (.call (.call (.refl _))))

theorem returns_route {key : String} {entry : DataRouterInsertMessage} {t : Trace}
    {r : Result Unit} :
    Returns (route config key entry) t r ↔ Routed config key entry t r := by
  constructor
  · intro h
    obtain ⟨now, t₁, t₂, rfl, h₁, h₂⟩ := returns_bind.mp h
    obtain rfl := returns_perform.mp h₁
    obtain ⟨topic, t₃, t₄, rfl, h₃, h₄⟩ := returns_bind.mp h₂
    have hlookup := returns_getSchemaTopic.mp h₃
    cases topic with
    | error e =>
      obtain ⟨rfl, hr⟩ := steps_ret.mp h₄
      cases hr
      rw [List.append_nil]
      exact .unroutable hlookup
    | ok topic =>
      obtain ⟨_, t₅, t₆, rfl, h₅, h₆⟩ := returns_bind.mp h₄
      obtain rfl := returns_sendMessage.mp h₅
      obtain ⟨rfl, hr⟩ := steps_ret.mp h₆
      cases hr
      exact .published hlookup
  · intro h
    cases h with
    | published found =>
      refine returns_bind.mpr ⟨_, [_], _, rfl, returns_perform.mpr rfl, ?_⟩
      refine returns_bind.mpr ⟨_, _, _, rfl, returns_getSchemaTopic.mpr found, ?_⟩
      exact .call (.refl _)
    | @unroutable now t e failed =>
      refine returns_bind.mpr ⟨_, [_], t, rfl, returns_perform.mpr rfl, ?_⟩
      refine returns_bind.mpr ⟨_, t, [], by simp, returns_getSchemaTopic.mpr failed, ?_⟩
      exact .refl _

/-! ## All entries of a request -/

/-- The result the loop ends with, from the results of the entries. -/
def lastResult (result : Result Unit) (results : List (Result Unit)) : Result Unit :=
  results.foldl (fun result r =>
    match withContext "Tried to send message and failed" r with
    | .error e => .error e
    | .ok () => result) result

theorem lastResult_eq_ok {results : List (Result Unit)} {result : Result Unit} :
    lastResult result results = .ok () ↔ result = .ok () ∧ ∀ r ∈ results, r = .ok () := by
  unfold lastResult
  induction results generalizing result with
  | nil => simp
  | cons r results ih =>
    rw [List.foldl_cons, ih]
    cases r with
    | error e => simp [withContext]
    | ok u => simp [withContext]

/-- The entries were routed in order, each by the calls of one segment. -/
abbrev RoutedAll (config : Config) (key : String) (entries : List DataRouterInsertMessage)
    (segments : List (Trace × Result Unit)) : Prop :=
  List.Forall₂ (fun entry segment => Routed config key entry segment.1 segment.2) entries segments

theorem routeEntries_cons (key : String) (entry : DataRouterInsertMessage)
    (rest : List DataRouterInsertMessage) (result : Result Unit) :
    routeEntries config key (entry :: rest) result =
      (route config key entry).bind fun r =>
        routeEntries config key rest (lastResult result [r]) :=
  congrArg (route config key entry).bind (funext fun r => by cases r <;> rfl)

theorem returns_routeEntries {key : String} {entries : List DataRouterInsertMessage}
    {result r : Result Unit} {t : Trace} :
    Returns (routeEntries config key entries result) t r ↔
      ∃ segments, RoutedAll config key entries segments ∧ t = (segments.map Prod.fst).flatten ∧
        r = lastResult result (segments.map Prod.snd) := by
  induction entries generalizing result t with
  | nil =>
    constructor
    · intro h
      obtain ⟨rfl, hr⟩ := steps_ret.mp h
      cases hr
      exact ⟨[], .nil, rfl, rfl⟩
    · rintro ⟨segments, hall, rfl, rfl⟩
      cases hall
      exact .refl _
  | cons entry rest ih =>
    rw [routeEntries_cons]
    constructor
    · intro h
      obtain ⟨r', t₁, t₂, rfl, h₁, h₂⟩ := returns_bind.mp h
      obtain ⟨segments, hall, rfl, rfl⟩ := ih.mp h₂
      exact ⟨(t₁, r') :: segments, .cons (returns_route.mp h₁) hall, rfl, rfl⟩
    · rintro ⟨segments, hall, rfl, rfl⟩
      cases hall with
      | @cons _ segment _ segments hentry hrest =>
        refine returns_bind.mpr ⟨segment.2, _, _, rfl, returns_route.mpr hentry, ?_⟩
        exact ih.mpr ⟨segments, hrest, rfl, rfl⟩

def Request.entries : Request → List DataRouterInsertMessage
  | multi entries => entries
  | single entry => [entry]

/-- A single message is routed as a multimessage of one entry. -/
theorem routeRequest_eq (key : String) (request : Request) :
    routeRequest config key request = routeEntries config key request.entries (.ok ()) := by
  cases request with
  | multi entries => rfl
  | single entry =>
    rw [Request.entries, routeEntries_cons]
    exact congrArg (route config key entry).bind (funext fun r => by cases r <;> rfl)

theorem returns_routeRequest {key : String} {request : Request} {t : Trace} {r : Result Unit} :
    Returns (routeRequest config key request) t r ↔
      ∃ segments, RoutedAll config key request.entries segments ∧
        t = (segments.map Prod.fst).flatten ∧ r = lastResult (.ok ()) (segments.map Prod.snd) := by
  rw [routeRequest_eq, returns_routeEntries]

/-! ## What a payload says -/

/-- The entries of a payload: those of an array, or the one that it is itself. -/
inductive Carries (json : SerdeJson) (message : CommunicationMessage) : List DataRouterInsertMessage → Prop where
  | array {text : String} {members : List Value} {entries : List DataRouterInsertMessage}
      (payload : message.payload = .ok text) (value : json.value text = .ok (.array members))
      (parsed : json.routerMessages text = .ok entries) : Carries json message entries
  | single {text : String} {value : Value} {entry : DataRouterInsertMessage}
      (payload : message.payload = .ok text) (valid : json.value text = .ok value)
      (noArray : ∀ members, value ≠ .array members) (parsed : json.routerMessage text = .ok entry) :
      Carries json message [entry]

/-- There is no payload, it is not JSON, or it does not hold entries. -/
inductive Malformed (json : SerdeJson) (message : CommunicationMessage) : AnyhowError → Prop where
  | unreadable {e : Error} (payload : message.payload = .error e) : Malformed json message (.root e.display)
  | invalid {text e : String} (payload : message.payload = .ok text) (invalid : json.value text = .error e) :
      Malformed json message (.context "Payload deserialization failed" (.root e))
  | array {text e : String} {members : List Value} (payload : message.payload = .ok text)
      (value : json.value text = .ok (.array members)) (failed : json.routerMessages text = .error e) :
      Malformed json message
        (.context "Payload deserialization failed, message is not a valid cdl message " (.root e))
  | single {text e : String} {value : Value} (payload : message.payload = .ok text)
      (valid : json.value text = .ok value) (noArray : ∀ members, value ≠ .array members)
      (failed : json.routerMessage text = .error e) :
      Malformed json message
        (.context "Payload deserialization failed, message is not a valid cdl message" (.root e))

section Payload
variable {message : CommunicationMessage} {text : String} {value : Value} {entries : List DataRouterInsertMessage}
  {e : AnyhowError}

theorem payloadText_ok (h : message.payload = .ok text) : payloadText message = .ok text := by
  rw [payloadText, h]
  rfl

theorem parseRequest_array {members : List Value} (hpayload : message.payload = .ok text)
    (hvalue : json.value text = .ok (.array members)) : parseRequest json message =
      (parsed "Payload deserialization failed, message is not a valid cdl message "
        (json.routerMessages text)).map .multi := by
  rw [parseRequest, payloadText_ok hpayload]
  show (parsed _ (json.value text)).bind _ = _
  rw [hvalue]
  show (parsed _ (json.routerMessages text)).bind _ = _
  cases json.routerMessages text <;> rfl

theorem parseRequest_single (hpayload : message.payload = .ok text) (hvalue : json.value text = .ok value)
    (hnoArray : ∀ members, value ≠ .array members) : parseRequest json message =
      (parsed "Payload deserialization failed, message is not a valid cdl message"
        (json.routerMessage text)).map .single := by
  rw [parseRequest, payloadText_ok hpayload]
  show (parsed _ (json.value text)).bind _ = _
  rw [hvalue]
  cases value with
  | array members => exact absurd rfl (hnoArray members)
  | _ =>
    show (parsed _ (json.routerMessage text)).bind _ = _
    cases json.routerMessage text <;> rfl

theorem parseRequest_of_carries (h : Carries json message entries) :
    ∃ request, parseRequest json message = .ok request ∧ request.entries = entries := by
  cases h with
  | array payload value parsed => exact ⟨_, by rw [parseRequest_array payload value, parsed]; rfl, rfl⟩
  | single payload valid noArray parsed =>
    exact ⟨_, by rw [parseRequest_single payload valid noArray, parsed]; rfl, rfl⟩

theorem parseRequest_of_malformed (h : Malformed json message e) : parseRequest json message = .error e := by
  cases h with
  | unreadable payload =>
    rw [parseRequest, payloadText, payload]
    rfl
  | invalid payload invalid =>
    rw [parseRequest, payloadText_ok payload]
    show (parsed _ (json.value _)).bind _ = _
    rw [invalid]
    rfl
  | array payload value failed =>
    rw [parseRequest_array payload value, failed]
    rfl
  | single payload valid noArray failed =>
    rw [parseRequest_single payload valid noArray, failed]
    rfl

/-- A payload carries entries or is malformed. -/
theorem carries_or_malformed (json : SerdeJson) (message : CommunicationMessage) :
    (∃ entries, Carries json message entries) ∨ ∃ e, Malformed json message e := by
  cases hpayload : message.payload with
  | error e => exact .inr ⟨_, .unreadable hpayload⟩
  | ok text =>
    cases hvalue : json.value text with
    | error e => exact .inr ⟨_, .invalid hpayload hvalue⟩
    | ok value =>
      by_cases harray : ∃ members, value = .array members
      · obtain ⟨members, rfl⟩ := harray
        cases hparsed : json.routerMessages text with
        | ok entries => exact .inl ⟨_, .array hpayload hvalue hparsed⟩
        | error e => exact .inr ⟨_, .array hpayload hvalue hparsed⟩
      · have hnoArray : ∀ members, value ≠ .array members := fun members h => harray ⟨members, h⟩
        cases hparsed : json.routerMessage text with
        | ok entry => exact .inl ⟨_, .single hpayload hvalue hnoArray hparsed⟩
        | error e => exact .inr ⟨_, .single hpayload hvalue hnoArray hparsed⟩

theorem carries_iff : Carries json message entries ↔
    ∃ request, parseRequest json message = .ok request ∧ request.entries = entries := by
  refine ⟨parseRequest_of_carries, ?_⟩
  rintro ⟨request, hparse, rfl⟩
  obtain ⟨entries, h⟩ | ⟨e, h⟩ := carries_or_malformed json message
  · obtain ⟨request', hparse', hentries⟩ := parseRequest_of_carries h
    rw [hparse] at hparse'
    cases hparse'
    exact hentries ▸ h
  · rw [parseRequest_of_malformed h] at hparse
    cases hparse

theorem malformed_iff : Malformed json message e ↔ parseRequest json message = .error e := by
  refine ⟨parseRequest_of_malformed, fun hparse => ?_⟩
  obtain ⟨entries, h⟩ | ⟨e', h⟩ := carries_or_malformed json message
  · obtain ⟨request, hparse', -⟩ := parseRequest_of_carries h
    rw [hparse] at hparse'
    cases hparse'
  · rw [parseRequest_of_malformed h] at hparse
    cases hparse
    exact h

theorem Carries.eq {entries' : List DataRouterInsertMessage} (h : Carries json message entries)
    (h' : Carries json message entries') : entries = entries' := by
  obtain ⟨request, hparse, rfl⟩ := carries_iff.mp h
  obtain ⟨request', hparse', rfl⟩ := carries_iff.mp h'
  rw [hparse] at hparse'
  cases hparse'
  rfl

/-- A payload that carries entries is not malformed. -/
theorem Carries.not_malformed (h : Carries json message entries) : ¬ Malformed json message e := by
  intro hmalformed
  obtain ⟨request, hparse, -⟩ := carries_iff.mp h
  rw [malformed_iff, hparse] at hmalformed
  cases hmalformed

end Payload

/-! ## A whole message -/

theorem all_sendMessage {topic key : String} {payload : Payload} :
    (sendMessage topic key payload).All (· ≠ .ack) := by
  refine ⟨by simp, fun a => ?_⟩
  cases a with
  | error e => exact ⟨by simp, fun a => a.elim⟩
  | ok _ => trivial

theorem all_getSchemaTopic {schemaId : Uuid} : (getSchemaTopic config schemaId).All (· ≠ .ack) := by
  refine ⟨by simp, fun cached => ?_⟩
  cases cached with
  | some topic => trivial
  | none =>
    refine ⟨by simp, fun client => ?_⟩
    cases client with
    | error e => trivial
    | ok _ =>
      refine ⟨by simp, fun answer => ?_⟩
      cases answer with
      | error e => trivial
      | ok topic => exact ⟨by simp, fun _ => trivial⟩

theorem all_route {key : String} {entry : DataRouterInsertMessage} :
    (route config key entry).All (· ≠ .ack) := by
  refine ⟨by simp, fun now => all_getSchemaTopic.bind fun topic => ?_⟩
  cases topic with
  | error e => trivial
  | ok topic => exact all_sendMessage.bind fun _ => trivial

theorem all_routeEntries {key : String} (entries : List DataRouterInsertMessage)
    (result : Result Unit) : (routeEntries config key entries result).All (· ≠ .ack) := by
  induction entries generalizing result with
  | nil => trivial
  | cons entry rest ih =>
    rw [routeEntries_cons]
    exact all_route.bind fun r => ih _

theorem all_routeRequest {key : String} {request : Request} :
    (routeRequest config key request).All (· ≠ .ack) := by
  rw [routeRequest_eq]
  exact all_routeEntries _ _

/-- A report that the error topic has confirmed. -/
def Reported (config : Config) (log : Trace) : Prop :=
  ∃ error, published config.errorTopicOrExchange serviceName (.report error) ∈ log

/-- What has to be done for a message before it may be acknowledged. -/
inductive Delivered (json : SerdeJson) (config : Config) (message : CommunicationMessage)
    (log : Trace) : Prop where
  | unparsed {e : AnyhowError} (malformed : Malformed json message e) (reported : Reported config log)
  | routed {entries : List DataRouterInsertMessage} {segments : List (Trace × Result Unit)}
      (carries : Carries json message entries) (all : RoutedAll config (messageKey message) entries segments)
      (calls : (segments.map Prod.fst).flatten <+: log)
      (reported : (∃ segment ∈ segments, segment.2 ≠ .ok ()) → Reported config log)

theorem Delivered.mono {message : CommunicationMessage} {log : Trace}
    (h : Delivered json config message log) (more : Trace) :
    Delivered json config message (log ++ more) := by
  have hreported : Reported config log → Reported config (log ++ more) :=
    fun ⟨error, he⟩ => ⟨error, List.mem_append_left more he⟩
  cases h with
  | unparsed malformed reported => exact .unparsed malformed (hreported reported)
  | routed carries all calls reported =>
    exact .routed carries all (calls.trans (List.prefix_append log more))
      fun hs => hreported (reported hs)

/-- Nothing happens before an acknowledgement, and there is only one. -/
theorem steps_ack {f : Except Error Unit → Task Unit} {t : Trace}
    {next : Except Error Unit → Task Unit} (herror : ∀ e, f (.error e) = abort)
    (hok : f (.ok ()) = .ret ()) (h : Steps (ack.bind f) t (.call .ack next)) : t = [] := by
  cases h with
  | refl => rfl
  | @call _ _ a _ _ rest =>
    cases a with
    | error e =>
      have rest : Steps (f (.error e)) _ _ := rest
      rw [herror] at rest
      cases rest with
      | @call _ _ a => exact a.elim
    | ok _ =>
      have rest : Steps (f (.ok ())) _ _ := rest
      rw [hok] at rest
      obtain ⟨_, h⟩ := steps_ret.mp rest
      cases h

/-- What `finishMessage` has done when it acknowledges. -/
theorem steps_finishMessage_ack {result : Result Unit} {t : Trace}
    {next : Except Error Unit → Task Unit}
    (h : Steps (finishMessage config result) t (.call .ack next)) :
    (result = .ok () ∧ t = []) ∨
      ∃ e, result = .error e ∧ t = [published config.errorTopicOrExchange serviceName (.report e)] := by
  cases result with
  | ok _ => exact .inl ⟨rfl, steps_ack (fun _ => rfl) rfl h⟩
  | error e =>
    obtain ⟨_, t₁, t₂, rfl, h₁, h₂⟩ := steps_bind_call all_sendMessage (by simp) h
    obtain rfl := returns_sendMessage.mp h₁
    rw [steps_ack (fun _ => rfl) rfl h₂]
    exact .inr ⟨e, rfl, rfl⟩

/-- **A message is acknowledged only after it was delivered, and only once.** -/
theorem delivered_of_ack {message : CommunicationMessage} {t : Trace}
    {next : Except Error Unit → Task Unit}
    (h : Steps (handleMessage json config message) t (.call .ack next)) :
    Delivered json config message t ∧ ∀ e ∈ t, e.1 ≠ .ack := by
  unfold handleMessage at h
  cases hparse : parseRequest json message with
  | error e =>
    rw [hparse] at h
    rcases steps_finishMessage_ack h with ⟨hok, _⟩ | ⟨e', -, rfl⟩
    · cases hok
    · exact ⟨.unparsed (malformed_iff.mpr hparse) ⟨e', by simp⟩, by simp [published]⟩
  | ok request =>
    rw [hparse] at h
    obtain ⟨r, t₁, t₂, rfl, h₁, h₂⟩ := steps_bind_call all_routeRequest (by simp) h
    have hroute := fun e => all_routeRequest.mem h₁ (e := e)
    have hcarries : Carries json message request.entries := carries_iff.mpr ⟨request, hparse, rfl⟩
    obtain ⟨segments, hall, rfl, rfl⟩ := returns_routeRequest.mp h₁
    rcases steps_finishMessage_ack h₂ with ⟨hok, rfl⟩ | ⟨e, -, rfl⟩
    · refine ⟨.routed hcarries hall (List.prefix_append _ _) ?_, by simpa using hroute⟩
      rintro ⟨segment, hmem, hne⟩
      exact absurd ((lastResult_eq_ok.mp hok).2 _ (List.mem_map_of_mem hmem)) hne
    · refine ⟨.routed hcarries hall (List.prefix_append _ _) fun _ => ⟨e, by simp⟩, ?_⟩
      intro e' he'
      rcases List.mem_append.mp he' with he' | he'
      · exact hroute e' he'
      · rw [List.mem_singleton.mp he']
        simp [published]

/-! ## The batch of the samples -/

def sampleConfig : Config := { errorTopicOrExchange := "cdl.error", schemaRegistryAddr := "registry" }

theorem carries_batchText {key : Except Error String} :
    Carries sampleJson ⟨key, .ok batchText⟩ [otherEntry, sampleEntry] :=
  .array rfl value_batchText routerMessages_batchText

theorem parseRequest_batchText {key : Except Error String} :
    parseRequest sampleJson ⟨key, .ok batchText⟩ = .ok (.multi [otherEntry, sampleEntry]) := by
  rw [parseRequest_array rfl value_batchText, routerMessages_batchText]
  rfl

def refused : AnyhowError := .context "Tried to send message and failed" (.root "No schema found")

/-- The registry refuses the first entry, and the topic of the second one is in the cache. -/
def batchCalls : Trace :=
  [⟨.currentTimestamp, (7 : ℤ)⟩, ⟨.cacheGetMut 1, none⟩, ⟨.connect "registry", .ok ()⟩,
    ⟨.getSchemaTopic (Uuid.toText 1), .error "No schema found"⟩,
    ⟨.currentTimestamp, (8 : ℤ)⟩, ⟨.cacheGetMut 0, some "cdl.orders"⟩,
    published "cdl.orders" "orders" (.insert (stamped sampleEntry 8)),
    published "cdl.error" "data-router" (.report refused)]

theorem steps_batchCalls : Steps (handleMessage sampleJson sampleConfig ⟨.ok "orders", .ok batchText⟩)
    batchCalls (finishMessage sampleConfig (.ok ())) := by
  rw [handleMessage, parseRequest_batchText]
  exact .call (.call (.call (.call (.call (.call (.call (.call (.refl _))))))))

end CommonDataLayer.DataRouter
