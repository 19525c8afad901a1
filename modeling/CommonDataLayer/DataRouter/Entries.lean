import CommonDataLayer.DataRouter.Delivery

/-! # What becomes of the entries of a message

As long as the broker confirms what is published, a message is handled to its end. By then every
entry whose topic was found has been published once, in order, a failure has been reported, and the
message was acknowledged last (`handled_of_confirmed`).
-/
namespace CommonDataLayer.DataRouter
open Interaction MessagingSystem
set_option autoImplicit false

structure Publication where
  topicOrExchange : String
  key : String
  payload : Payload

def publication : Event Answer → Option Publication
  | ⟨.publishMessage topic key payload, _⟩ => some ⟨topic, key, payload⟩
  | _ => none

def publications (t : Trace) : List Publication := t.filterMap publication

/-- The calls of the lookups: neither a publish nor the acknowledgement. -/
def isLookup : Event Answer → Bool
  | ⟨.publishMessage _ _ _, _⟩ => false
  | ⟨.ack, _⟩ => false
  | _ => true

/-- The time stamp of an entry, the calls that look its topic up, and what they found. -/
structure Outcome where
  now : ℤ
  calls : Trace
  found : Result String

/-- The message of an entry whose topic was found. -/
def Outcome.publication (key : String) (entry : DataRouterInsertMessage) (outcome : Outcome) :
    Option Publication :=
  outcome.found.toOption.map fun topic => ⟨topic, key, .insert (stamped entry outcome.now)⟩

def Outcome.result (outcome : Outcome) : Result Unit := outcome.found.map fun _ => ()

/-- The report that belongs to a result. -/
def reports (config : Config) : Result Unit → List Publication
  | .error e => [⟨config.errorTopicOrExchange, serviceName, .report e⟩]
  | .ok () => []

/-- A broker that confirms what is published. -/
def Confirmed : Event Answer → Prop
  | ⟨.publishMessage _ _ _, r⟩ => r = .ok ()
  | _ => True

/-- The calls of a message that are answered. -/
def Call.Answered : Call → Prop
  | lock _ => False
  | abort => False
  | _ => True

/-- The task has returned, or it aborts. -/
def Ended (p : Task Unit) : Prop := p = .ret () ∨ ∃ next, p = .call .abort next

/-- What the calls of a whole message amount to. -/
structure Handled (json : SerdeJson) (config : Config) (message : CommunicationMessage) (t : Trace) :
    Prop where
  acked : ∃ before answer, t = before ++ [⟨.ack, answer⟩] ∧ ∀ e ∈ before, e.1 ≠ .ack
  unparsed (e : AnyhowError) : Malformed json message e → publications t = reports config (.error e)
  routed (entries : List DataRouterInsertMessage) : Carries json message entries →
    ∃ outcomes : List Outcome,
      List.Forall₂ (fun entry outcome => Lookup config entry.schemaId outcome.calls outcome.found)
        entries outcomes ∧
      t.filter isLookup =
        (outcomes.map fun outcome => ⟨.currentTimestamp, outcome.now⟩ :: outcome.calls).flatten ∧
      publications t =
        (List.zipWith (Outcome.publication (messageKey message)) entries outcomes).reduceOption ++
          reports config (lastResult (.ok ()) (outcomes.map Outcome.result))

variable {json : SerdeJson} {config : Config} {message : CommunicationMessage} {t : Trace}

/-! ## The calls of the entries -/

theorem publications_lookup {schemaId : Uuid} {found : Result String}
    (h : Lookup config schemaId t found) : publications t = [] ∧ t.filter isLookup = t := by
  cases h <;> exact ⟨rfl, rfl⟩

theorem exists_outcome {key : String} {entry : DataRouterInsertMessage} {r : Result Unit}
    (h : Routed config key entry t r) : ∃ outcome : Outcome,
      Lookup config entry.schemaId outcome.calls outcome.found ∧ r = outcome.result ∧
      t.filter isLookup = ⟨.currentTimestamp, outcome.now⟩ :: outcome.calls ∧
      publications t = (outcome.publication key entry).toList := by
  cases h with
  | @published now t topic found =>
    obtain ⟨hnone, hall⟩ := publications_lookup found
    refine ⟨⟨now, t, .ok topic⟩, found, rfl, ?_, ?_⟩
    · show ⟨.currentTimestamp, now⟩ :: (t ++ [_]).filter isLookup = _
      rw [List.filter_append, hall]
      exact congrArg _ (List.append_nil t)
    · show publications (t ++ [_]) = _
      rw [publications, List.filterMap_append, ← publications, hnone]
      rfl
  | @unroutable now t e failed =>
    obtain ⟨hnone, hall⟩ := publications_lookup failed
    exact ⟨⟨now, t, .error e⟩, failed, rfl, congrArg (_ :: ·) hall, hnone⟩

theorem exists_outcomes {key : String} {entries : List DataRouterInsertMessage}
    {segments : List (Trace × Result Unit)} (h : RoutedAll config key entries segments) :
    ∃ outcomes : List Outcome,
      List.Forall₂ (fun entry outcome => Lookup config entry.schemaId outcome.calls outcome.found)
        entries outcomes ∧
      segments.map Prod.snd = outcomes.map Outcome.result ∧
      (segments.map Prod.fst).flatten.filter isLookup =
        (outcomes.map fun outcome => ⟨.currentTimestamp, outcome.now⟩ :: outcome.calls).flatten ∧
      publications (segments.map Prod.fst).flatten =
        (List.zipWith (Outcome.publication key) entries outcomes).reduceOption := by
  induction h with
  | nil => exact ⟨[], .nil, rfl, rfl, rfl⟩
  | @cons entry segment entries segments hentry _ ih =>
    obtain ⟨outcome, hlookup, hresult, hcalls, hpublished⟩ := exists_outcome hentry
    obtain ⟨outcomes, hlookups, hresults, hcalls', hpublished'⟩ := ih
    refine ⟨outcome :: outcomes, .cons hlookup hlookups, ?_, ?_, ?_⟩
    · rw [List.map_cons, List.map_cons, hresult, hresults]
    · rw [List.map_cons, List.flatten_cons, List.filter_append, hcalls, hcalls']
      rfl
    · rw [List.map_cons, List.flatten_cons, publications, List.filterMap_append, ← publications,
        ← publications, hpublished, hpublished', List.zipWith_cons_cons]
      cases outcome.publication key entry <;> rfl

/-! ## To the end of a message -/

theorem under_sendMessage {topic key : String} {payload : Payload} :
    (sendMessage topic key payload).AllUnder Confirmed Call.Answered := by
  refine ⟨trivial, fun a ha => ?_⟩
  obtain rfl : a = .ok () := ha
  trivial

theorem under_route {key : String} {entry : DataRouterInsertMessage} :
    (route config key entry).AllUnder Confirmed Call.Answered := by
  have hlookup : (getSchemaTopic config entry.schemaId).All Call.Answered := by
    refine ⟨trivial, fun cached => ?_⟩
    cases cached with
    | some topic => trivial
    | none =>
      refine ⟨trivial, fun client => ?_⟩
      cases client with
      | error e => trivial
      | ok _ =>
        refine ⟨trivial, fun answer => ?_⟩
        cases answer with
        | error e => trivial
        | ok topic => exact ⟨trivial, fun _ => trivial⟩
  refine ⟨trivial, fun now _ => (hlookup.under Confirmed).bind fun topic => ?_⟩
  cases topic with
  | error e => trivial
  | ok topic => exact under_sendMessage.bind fun _ => trivial

theorem under_routeEntries {key : String} (entries : List DataRouterInsertMessage)
    (result : Result Unit) :
    (routeEntries config key entries result).AllUnder Confirmed Call.Answered := by
  induction entries generalizing result with
  | nil => trivial
  | cons entry rest ih =>
    rw [routeEntries_cons]
    exact under_route.bind fun r => ih _

theorem under_routeRequest {key : String} (request : Request) :
    (routeRequest config key request).AllUnder Confirmed Call.Answered := by
  rw [routeRequest_eq]
  exact under_routeEntries _ _

theorem not_ended_call {q : Call} {next : Answer q → Task Unit} (hq : q.Answered) :
    ¬ Ended (.call q next) := by
  rintro (hret | ⟨next', hcall⟩)
  · cases hret
  · cases hcall
    exact hq

/-- The last calls of a message. -/
theorem ended_finishMessage {result : Result Unit} {p : Task Unit}
    (h : Steps (finishMessage config result) t p) (hended : Ended p) (ht : ∀ e ∈ t, Confirmed e) :
    ∃ before answer, t = before ++ [⟨.ack, answer⟩] ∧ (∀ e ∈ before, e.1 ≠ .ack) ∧
      publications t = reports config result ∧ t.filter isLookup = [] := by
  have hack {t : Trace} {f : Except Error Unit → Task Unit} (herror : ∀ e, f (.error e) = abort)
      (hok : f (.ok ()) = .ret ()) (h : Steps (ack.bind f) t p) : ∃ answer, t = [⟨.ack, answer⟩] := by
    cases h with
    | refl => exact absurd hended (not_ended_call (q := .ack) trivial)
    | @call _ _ a t _ rest =>
      refine ⟨a, ?_⟩
      cases a with
      | error e =>
        replace rest : Steps (f (.error e)) t p := rest
        rw [herror] at rest
        cases rest with
        | refl => rfl
        | @call _ _ a => exact a.elim
      | ok _ =>
        replace rest : Steps (f (.ok ())) t p := rest
        rw [hok] at rest
        rw [(steps_ret.mp rest).1]
  cases result with
  | ok _ =>
    obtain ⟨answer, rfl⟩ := hack (fun _ => rfl) rfl h
    exact ⟨[], answer, rfl, List.forall_mem_nil _, rfl, rfl⟩
  | error e =>
    cases h with
    | refl => exact absurd hended (not_ended_call (q := .publishMessage _ _ _) trivial)
    | @call _ _ a t _ rest =>
      obtain rfl : a = .ok () := (List.forall_mem_cons.mp ht).1
      obtain ⟨answer, rfl⟩ := hack (fun _ => rfl) rfl rest
      exact ⟨[_], answer, rfl, by simp, rfl, rfl⟩

theorem handled_of_ended {p : Task Unit} (h : Steps (handleMessage json config message) t p)
    (hended : Ended p) (ht : ∀ e ∈ t, Confirmed e) : Handled json config message t := by
  unfold handleMessage at h
  obtain ⟨entries, hcarries⟩ | ⟨e, hmalformed⟩ := carries_or_malformed json message
  · obtain ⟨request, hparse, rfl⟩ := carries_iff.mp hcarries
    rw [hparse] at h
    rcases steps_bind h with ⟨p', hp', rfl⟩ | ⟨r, t₁, t₂, rfl, h₁, h₂⟩
    · -- an abort inside the loop needs a publish that was not confirmed
      have hunder := (under_routeRequest request).steps hp' ht
      cases p' with
      | ret r =>
        obtain ⟨before, answer, hnil, -⟩ := ended_finishMessage (.refl _) hended (List.forall_mem_nil _)
        simp at hnil
      | call q next => exact absurd hended (not_ended_call hunder.1)
    · rw [List.forall_mem_append] at ht
      obtain ⟨before, answer, rfl, hbefore, hpublished, hlookups⟩ := ended_finishMessage h₂ hended ht.2
      have hroute := fun e => all_routeRequest.mem h₁ (e := e)
      obtain ⟨segments, hall, rfl, rfl⟩ := returns_routeRequest.mp h₁
      obtain ⟨outcomes, houtcomes, hresults, hcalls, hsent⟩ := exists_outcomes hall
      refine ⟨⟨_, answer, (List.append_assoc _ _ _).symm, ?_⟩, fun e he => ?_, fun entries hentries => ?_⟩
      · exact List.forall_mem_append.mpr ⟨hroute, hbefore⟩
      · exact absurd he hcarries.not_malformed
      · obtain rfl := hcarries.eq hentries
        refine ⟨outcomes, houtcomes, ?_, ?_⟩
        · rw [List.filter_append, hcalls, hlookups, List.append_nil]
        · rw [publications, List.filterMap_append, ← publications, ← publications, hsent, hpublished,
            hresults]
  · have hparse := malformed_iff.mp hmalformed
    rw [hparse] at h
    obtain ⟨before, answer, rfl, hbefore, hpublished, -⟩ := ended_finishMessage h hended ht
    refine ⟨⟨before, answer, rfl, hbefore⟩, fun e' he' => ?_, fun entries hentries => ?_⟩
    · rw [malformed_iff, hparse] at he'
      cases he'
      exact hpublished
    · exact absurd hmalformed hentries.not_malformed

/-- The end of a message makes no call for a lock. -/
theorem all_finishMessage (result : Result Unit) :
    (finishMessage config result).All fun q => ∀ c, q ≠ .lock c := by
  have hack : (finishMessage config (.ok ())).All fun q => ∀ c, q ≠ .lock c := by
    refine ⟨by simp, fun a => ?_⟩
    cases a with
    | error e => exact ⟨by simp, fun a => a.elim⟩
    | ok _ => trivial
  cases result with
  | ok _ => exact hack
  | error e =>
    -- the end is the same after the report
    refine Program.All.bind ?_ fun _ => hack
    refine ⟨by simp, fun a => ?_⟩
    cases a with
    | error e => exact ⟨by simp, fun a => a.elim⟩
    | ok _ => trivial

theorem exists_confirmed {q : Call} (hq : q.Answered) : ∃ a, Confirmed ⟨q, a⟩ := by
  cases q with
  | lock c => exact hq.elim
  | abort => exact hq.elim
  | currentTimestamp => exact ⟨(0 : ℤ), trivial⟩
  | cacheGetMut schemaId => exact ⟨none, trivial⟩
  | connect addr => exact ⟨.ok (), trivial⟩
  | getSchemaTopic id => exact ⟨.ok "", trivial⟩
  | cacheInsert schemaId topic => exact ⟨(), trivial⟩
  | publishMessage topic key payload => exact ⟨.ok (), rfl⟩
  | ack => exact ⟨.ok (), trivial⟩

/-- Whatever else is answered, a message comes to its end. -/
theorem exists_ended {p : Task Unit} (h : Steps (handleMessage json config message) t p)
    (ht : ∀ e ∈ t, Confirmed e) :
    ∃ more p', Steps p more p' ∧ (∀ e ∈ more, Confirmed e) ∧ Ended p' := by
  have hunder : (handleMessage json config message).AllUnder Confirmed fun q => ∀ c, q ≠ .lock c := by
    unfold handleMessage
    cases parseRequest json message with
    | error e => exact (all_finishMessage _).under Confirmed
    | ok request =>
      refine Program.AllUnder.bind ?_ fun r => (all_finishMessage r).under Confirmed
      refine (under_routeRequest _).mono fun q hq c hlock => ?_
      subst hlock
      exact hq
  obtain ⟨more, p', hmore, hconfirmed, hstopped⟩ := exists_stopped (fun _ => exists_confirmed) p
  refine ⟨more, p', hmore, hconfirmed, ?_⟩
  rcases hstopped with ⟨u, rfl⟩ | ⟨q, next, hq, rfl⟩
  · exact .inl rfl
  · have hnolock := (((hunder.steps h ht).steps hmore hconfirmed).1 : ∀ c, q ≠ .lock c)
    cases q with
    | lock c => exact absurd rfl (hnolock c)
    | abort => exact .inr ⟨next, rfl⟩
    | _ => exact absurd trivial hq

/-- **Nothing is lost, duplicated or reordered.** Where no publish fails, a message is handled to its
end, and by then its calls are exactly those of its entries, its report and one acknowledgement. -/
theorem handled_of_confirmed {p : Task Unit} (h : Steps (handleMessage json config message) t p)
    (ht : ∀ e ∈ t, Confirmed e) :
    (Ended p → Handled json config message t) ∧
      ∃ more p', Steps p more p' ∧ (∀ e ∈ more, Confirmed e) ∧ Ended p' :=
  ⟨fun hended => handled_of_ended h hended ht, exists_ended h ht⟩

/-- The first entry of a batch is refused, the second one is published, and the refusal is reported. -/
theorem handled_batch :
    let message : CommunicationMessage := ⟨.ok "orders", .ok batchText⟩
    ∃ t, publications t = [⟨"cdl.orders", "orders", .insert (stamped sampleEntry 8)⟩,
        ⟨"cdl.error", "data-router", .report refused⟩] ∧
      Carries sampleJson message [otherEntry, sampleEntry] ∧ Handled sampleJson sampleConfig message t := by
  intro message
  have hack : Steps (finishMessage sampleConfig (.ok ())) [⟨.ack, .ok ()⟩] (.ret ()) := .call (.refl _)
  have hconfirmed : ∀ e ∈ batchCalls ++ [⟨.ack, .ok ()⟩], Confirmed e := by
    simp [batchCalls, Confirmed, published]
  exact ⟨_, rfl, carries_batchText,
    (handled_of_confirmed (steps_batchCalls.trans hack) hconfirmed).1 (.inl rfl)⟩

end CommonDataLayer.DataRouter
