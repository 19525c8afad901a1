import CommonDataLayer.SchemaRegistry.Mirror
import CommonDataLayer.SchemaRegistry.Redelivery

/-! # A Slave lags behind its Master by the events in flight

A Master that serves requests, a Slave that consumes the events of the Master one after the other,
and the channel between them, from empty databases. The steps of the two are interleaved in any way.

* `Performed.write`: a request that is carried over whole (`Carried`) leaves what its event writes.
* `Behind`: the events in flight lead from a graph that the Master had to the one it has.
* `mirrored_run`: in every run the Slave consumes each event without an error, and its registry is
  the one that the Master had right after the last of them, up to the identifiers of definitions.
-/
namespace CommonDataLayer.SchemaRegistry
open Interaction PropertyGraph SchemaRegistryImpl TransitionSystem
set_option autoImplicit false

/-- Nothing of the effect of the request is missing in its event, be it served or refused, and it
names no definition. -/
structure Carried (crates : Crates) (broker : Broker) (g : Graph) (request : Request) : Prop where
  type : ¬ request.ChangesSchemaType crates g
  whole : ¬ request.HalfApplied crates broker g
  named : ∀ i ∈ request.given crates, ¬ HasType g i .definition

/-- What `semver` reads, it writes as a text that it reads as the same version. -/
structure ReadsVersionsBack (crates : Crates) : Prop where
  first : crates.parseVersion (crates.showVersion (.new 1 0 0)) = .ok (.new 1 0 0)
  parsed : ∀ text version, crates.parseVersion text = .ok version →
    crates.parseVersion (crates.showVersion version) = .ok version

section Master
variable {crates : Crates} {broker : Broker} {draw : ℕ → Uuid} {g g' : Graph} {request : Request}
  {event : ReplicationEvent} {response : Response} {w w' : World}

theorem fresh_given_addSchema {given : Option Uuid} (hfresh : Fresh draw g given.toList) (id : Uuid)
    (hid : id = newVertexId draw given) :
    g.vertexAt (firstDefinitionId draw given) = none ∧ firstDefinitionId draw given ∉ [id] := by
  obtain ⟨hfree, hne⟩ := firstDefinitionId_free hfresh
  refine ⟨hfree, fun hmem => hne ?_⟩
  rw [← hid, List.mem_singleton.mp hmem]

/-- Setting the schema type to what it is does nothing. -/
theorem setProperties_sameType {id : String} {name topic address : Option String}
    {number : Option ℤ} {schemaId : Uuid} {schemaType : Option SchemaType}
    (hid : parseUuid crates id = .ok schemaId)
    (htype : number.map SchemaType.ofI32 = schemaType.map some)
    (hset : setProperties g schemaId (metadataProperties name topic address schemaType) = .ok g')
    (hsame : ¬ (Request.updateSchemaMetadata id name topic address number).ChangesSchemaType crates g) :
    setProperties g schemaId (metadataProperties name topic address none) = .ok g' := by
  cases schemaType with
  | none => exact hset
  | some schemaType =>
    cases number with
    | none => cases htype
    | some number =>
      have htype : SchemaType.ofI32 number = some schemaType := Option.some.inj htype
      obtain ⟨hexists, hg⟩ := setProperties_eq_ok.mp hset
      have hschema : g.vertexAt schemaId ≠ none := hexists (by simp [metadataProperties])
      have hstored : (g.vertexAt schemaId).bind (·.props .schemaType) =
          some (.string schemaType.text) := by
        by_contra hne
        exact hsame ⟨schemaId, schemaType, mem_of_parseUuid hid, htype, hne⟩
      have hkept : ((g.setVertexProperties schemaId (metadataProperties name topic address
          none)).vertexAt schemaId).bind (·.props .schemaType) = some (.string schemaType.text) := by
        rw [Graph.vertexAt_setVertexProperties, if_pos rfl, Option.bind_map, ← hstored]
        refine congrArg _ (funext fun vertex => Props.setAll_of_notMem ?_)
        cases name <;> cases topic <;> cases address <;> simp [metadataProperties]
      refine setProperties_eq_ok.mpr ⟨fun _ => hschema, ?_⟩
      rw [hg, metadataProperties_some, Graph.setVertexProperties_append]
      exact Graph.setVertexProperty_self hkept

/-- The request leaves what its event writes, and the event names no definition either. -/
theorem Performed.write (h : Performed crates draw g request event g')
    (hfresh : Fresh draw g (request.given crates)) (hcarried : Carried crates broker g request) :
    (∀ i ∈ event.given, ¬ HasType g i .definition) ∧ ∃ d full, event.Ready crates g full ∧
      event.Draws g event.given d ∧ g' = event.write crates d full g := by
  have hparsed {text : String} {id : Uuid} (hid : parseUuid crates text = .ok id)
      (hgiven : request.given crates = (crates.parseUuid text).toOption.toList) :
      ∀ i ∈ [id], ¬ HasType g i .definition := by
    have hnamed := hcarried.named
    rw [hgiven, mem_of_parseUuid hid] at hnamed
    exact hnamed
  have hfree {i : Uuid} (hi : g.vertexAt i = none) : ¬ HasType g i .definition :=
    fun htype => htype.ne_none hi
  cases h with
  | addSchema hgiven hadd =>
    have hnew := hfresh.of_subset (parsed_subset hgiven)
    obtain ⟨full, hfull, hunused, hr⟩ := addSchemaOutcome_eq_ok.mp hadd
    obtain ⟨hid, hg⟩ := Prod.mk.inj hr
    have hidFree := newVertexId_free hnew hunused
    rw [← hid] at hidFree
    refine ⟨List.forall_mem_singleton.mpr (hfree hidFree), firstDefinitionId draw _, full,
      ⟨hfull, hidFree⟩, fun _ => fresh_given_addSchema hnew _ hid, ?_⟩
    rw [hg, ← hid]
    rfl
  | addSchemaVersion hid hadd =>
    have hnew := fresh_parsed hid hfresh
    obtain ⟨hexists, hgreatest, full, hfull, hr⟩ := addNewVersionOutcome_eq_ok.mp hadd
    exact ⟨hparsed hid rfl, draw 0, full, ⟨hexists, hgreatest, hfull⟩,
      fun _ => ⟨hnew.free 0 (by omega), hnew.notGiven 0 (by omega)⟩, (Prod.mk.inj hr).2⟩
  | updateSchemaMetadata hid htype hset =>
    have hready := setProperties_eq_ok.mp (setProperties_sameType hid htype hset hcarried.type)
    exact ⟨hparsed hid rfl, draw 0, ⟨.null⟩, hready.1, fun hne => absurd rfl hne, hready.2⟩
  | addViewToSchema hid hgiven hadd =>
    have hnew := fresh_parsedView hid hgiven hfresh
    obtain ⟨hexists, hparse, hunused, hr⟩ := addViewOutcome_eq_ok.mp hadd
    obtain ⟨hview, hg⟩ := Prod.mk.inj hr
    have hviewFree := newVertexId_free hnew hunused
    rw [← hview] at hviewFree hg
    refine ⟨?_, draw 0, ⟨.null⟩, ⟨hexists, hparse, hviewFree⟩, fun hne => absurd rfl hne, hg⟩
    refine List.forall_mem_cons.mpr ⟨hcarried.named _ ?_, List.forall_mem_singleton.mpr (hfree hviewFree)⟩
    exact List.mem_append_left _ (by rw [mem_of_parseUuid hid]; exact List.mem_singleton_self _)
  | updateView hid hupdate =>
    obtain ⟨hview, hparse, hg⟩ := updateViewOutcome_eq_ok.mp hupdate
    exact ⟨hparsed hid rfl, draw 0, ⟨.null⟩, ⟨⟨_, hview⟩, hparse⟩, fun hne => absurd rfl hne, hg⟩

/-- The version of a sent event was read from the request. -/
theorem readsBack_of_run (hcrates : ReadsVersionsBack crates) (hmaster : w.isMaster = true)
    (hfresh : Fresh w.supply w.graph (request.given crates))
    (hrun : run broker (handle crates request) w = (.ok response, w'))
    (hsent : w'.sent = w.sent ++ [event]) : event.ReadsBack crates := by
  obtain ⟨event', hsent', hperformed⟩ := performed_of_run hmaster hfresh hrun
  rw [hsent] at hsent'
  obtain rfl := List.singleton_inj.mp (List.append_cancel_left hsent')
  cases hperformed with
  | @addSchemaVersion id version definition schemaId newVersion g' hid hadd =>
    obtain ⟨schemaId', hid', hrest⟩ := run_parsed_bind hrun
    obtain ⟨parsed, hparsed, hrest⟩ := run_parsed_bind hrest
    obtain ⟨value, _, hrest⟩ := run_parsed_bind hrest
    have hnew := fresh_parsed hid' hfresh
    obtain ⟨_, -, hsent'⟩ := run_db_respond hmaster (run_addNewVersionOfSchema w hnew) hrest
    rw [hsent] at hsent'
    have hevent := List.singleton_inj.mp (List.append_cancel_left hsent')
    cases hevent
    unfold SchemaRegistry.parseVersion at hparsed
    cases hversion : crates.parseVersion version with
    | error e => rw [hversion] at hparsed; cases hparsed
    | ok v =>
      rw [hversion] at hparsed
      cases hparsed
      exact hcrates.parsed version _ hversion
  | _ => trivial

end Master

/-! ## Master, channel and Slave -/

structure Replicas where
  master : Graph
  /-- The events that were sent and are not consumed yet. -/
  channel : List ReplicationEvent
  slave : Graph

namespace Replicas

def start : Replicas := { master := .empty, channel := [], slave := .empty }

inductive Label where
  /-- The Master answers a request and sends some events. -/
  | serve (broker : Broker) (request : Request) (events : List ReplicationEvent)
  | consume (event : ReplicationEvent) (result : Except AnyhowError Unit)

def Label.sent : Label → List ReplicationEvent
  | serve _ _ events => events
  | consume _ _ => []

def Label.consumed : Label → List ReplicationEvent
  | serve _ _ _ => []
  | consume event _ => [event]

inductive Step (crates : Crates) : Replicas → Label → Replicas → Prop where
  | serve {s : Replicas} {broker : Broker} {request : Request} {events : List ReplicationEvent}
      {result : Except Status Response} {w w' : World} (hmaster : w.isMaster = true)
      (hgraph : w.graph = s.master) (hfresh : Fresh w.supply w.graph (request.given crates))
      (hrun : run broker (handle crates request) w = (result, w'))
      (hsent : w'.sent = w.sent ++ events) :
      Step crates s (.serve broker request events)
        { s with master := w'.graph, channel := s.channel ++ events }
  | consume {s : Replicas} {broker : Broker} {message : MessagingSystem.CommunicationMessage}
      {event : ReplicationEvent} {rest : List ReplicationEvent} {result : Except AnyhowError Unit}
      {w w' : World} (hnext : s.channel = event :: rest) (hmessage : Carries crates message event)
      (hack : broker.ack = .ok ()) (hgraph : w.graph = s.slave)
      (hfresh : Fresh w.supply w.graph event.given)
      (hrun : run broker (Slave.consumeMessage crates message) w = (result, w')) :
      Step crates s (.consume event result) { s with channel := rest, slave := w'.graph }

/-- Requests are carried over whole, and no event names a definition of the Slave. -/
def Ok (crates : Crates) (s : Replicas) : Label → Prop
  | .serve broker request _ => Carried crates broker s.master request
  | .consume event _ => ∀ i ∈ event.given, ¬ HasType s.slave i .definition

/-- The events that a run has sent, and those that it has consumed. -/
def sent (ts : List (Transition Replicas Label)) : List ReplicationEvent :=
  ts.flatMap fun t => t.label.sent

def consumed (ts : List (Transition Replicas Label)) : List ReplicationEvent :=
  ts.flatMap fun t => t.label.consumed

/-! ## The events in flight -/

/-- From a graph that is at `es` the events lead to another one; after each of them, the graph is at
the events until there. -/
inductive Behind (crates : Crates) (At : List ReplicationEvent → Graph → Prop) :
    List ReplicationEvent → Graph → List ReplicationEvent → Graph → Prop where
  | done {es : List ReplicationEvent} {g : Graph} (hat : At es g) : Behind crates At es g [] g
  | next {es rest : List ReplicationEvent} {g m : Graph} {event : ReplicationEvent} {d : Uuid}
      {full : Definition} (hat : At es g) (hready : event.Ready crates g full)
      (hd : event.Draws g event.given d)
      (hnamed : ∀ i ∈ event.given, ¬ HasType g i .definition) (hversion : event.ReadsBack crates)
      (later : Behind crates At (es ++ [event]) (event.write crates d full g) rest m) :
      Behind crates At es g (event :: rest) m

variable {crates : Crates} {At At' : List ReplicationEvent → Graph → Prop}
  {es events : List ReplicationEvent} {event : ReplicationEvent} {g m : Graph} {d : Uuid}
  {full : Definition}

theorem Behind.start (h : Behind crates At es g events m) : At es g := by
  cases h with
  | done hat => exact hat
  | next hat => exact hat

theorem Behind.eq_of_empty (h : Behind crates At es g [] m) : g = m := by
  cases h
  rfl

theorem Behind.last (h : Behind crates At es g events m) : At (es ++ events) m := by
  induction h with
  | done hat =>
    rw [List.append_nil]
    exact hat
  | next _ _ _ _ _ _ ih =>
    rw [← List.append_cons] at ih
    exact ih

theorem Behind.mono (h : Behind crates At es g events m) (hmono : ∀ es g, At es g → At' es g) :
    Behind crates At' es g events m := by
  induction h with
  | done hat => exact .done (hmono _ _ hat)
  | next hat hready hd hnamed hversion _ ih => exact .next (hmono _ _ hat) hready hd hnamed hversion ih

/-- One more event is sent. -/
theorem Behind.send (h : Behind crates At es g events m) (hready : event.Ready crates m full)
    (hd : event.Draws m event.given d) (hnamed : ∀ i ∈ event.given, ¬ HasType m i .definition)
    (hversion : event.ReadsBack crates)
    (hat : At (es ++ (events ++ [event])) (event.write crates d full m)) :
    Behind crates At es g (events ++ [event]) (event.write crates d full m) := by
  induction h with
  | done hstart =>
    rw [List.nil_append] at hat ⊢
    exact .next hstart hready hd hnamed hversion (.done hat)
  | next hstart hready' hd' hnamed' hversion' _ ih =>
    refine .next hstart hready' hd' hnamed' hversion' (ih hready hd hnamed ?_)
    rw [List.append_assoc, List.singleton_append]
    exact hat

/-! ## Runs -/

variable {s s' : Replicas} {l : Label} {ts us : List (Transition Replicas Label)}

theorem sent_append (ts us : List (Transition Replicas Label)) : sent (ts ++ us) = sent ts ++ sent us :=
  List.flatMap_append

theorem consumed_append (ts us : List (Transition Replicas Label)) :
    consumed (ts ++ us) = consumed ts ++ consumed us := List.flatMap_append

@[simp] theorem sent_singleton (t : Transition Replicas Label) : sent [t] = t.label.sent :=
  List.flatMap_singleton _ _

@[simp] theorem consumed_singleton (t : Transition Replicas Label) :
    consumed [t] = t.label.consumed := List.flatMap_singleton _ _

/-- The channel keeps the order and loses nothing. -/
theorem sent_eq (hrun : Run (Step crates) start ts s) : sent ts = consumed ts ++ s.channel := by
  induction hrun with
  | start => rfl
  | step _ next ih =>
    rw [sent_append, consumed_append, sent_singleton, consumed_singleton, ih]
    cases next with
    | serve => simp [Label.sent, Label.consumed]
    | consume hnext => simp [Label.sent, Label.consumed, hnext]

/-- The Master had the graph when it had sent the events. -/
def Had (crates : Crates) (ts : List (Transition Replicas Label)) (es : List ReplicationEvent)
    (g : Graph) : Prop :=
  ∃ us s, us <+: ts ∧ Run (Step crates) start us s ∧ sent us = es ∧ s.master = g

theorem had_append (ts us : List (Transition Replicas Label)) (es : List ReplicationEvent) (g : Graph)
    (h : Had crates ts es g) : Had crates (ts ++ us) es g := by
  obtain ⟨earlier, s, hprefix, hearlier⟩ := h
  exact ⟨earlier, s, hprefix.trans (List.prefix_append ts us), hearlier⟩

theorem had_now (hrun : Run (Step crates) start ts s) : Had crates ts (sent ts) s.master :=
  ⟨ts, s, List.prefix_rfl, hrun, rfl, rfl⟩

/-- The Slave mirrors a graph from which the events in flight lead to that of the Master. -/
def Lags (crates : Crates) (ts : List (Transition Replicas Label)) (s : Replicas) : Prop :=
  ∃ σ g, Mirrors σ g s.slave ∧ Orderly crates g ∧
    Behind crates (Had crates ts) (consumed ts) g s.channel s.master

theorem lags_serve (hcrates : ReadsVersionsBack crates) (h : Lags crates ts s) {broker : Broker}
    {request : Request} {result : Except Status Response} {w w' : World}
    (hmaster : w.isMaster = true) (hgraph : w.graph = s.master)
    (hfresh : Fresh w.supply w.graph (request.given crates))
    (hserve : SchemaRegistry.run broker (handle crates request) w = (result, w'))
    (hsent : w'.sent = w.sent ++ events) (hcarried : Carried crates broker s.master request)
    (hconsumed : consumed us = consumed ts) (hmono : ∀ es g, Had crates ts es g → Had crates us es g)
    (hnow : Had crates us (consumed ts ++ (s.channel ++ events)) w'.graph) :
    Lags crates us { s with master := w'.graph, channel := s.channel ++ events } := by
  obtain ⟨σ, g, hmirrors, horderly, hbehind⟩ := h
  have hlater := hbehind.mono hmono
  refine ⟨σ, g, hmirrors, horderly, ?_⟩
  rw [hconsumed]
  dsimp only
  rw [← hgraph] at hcarried
  cases result with
  | error status =>
    obtain ⟨hsame, hnothing⟩ := (failed_iff hfresh hserve).mpr hcarried.whole
    rw [hnothing, List.self_eq_append_right] at hsent
    rw [hsent, List.append_nil, hsame, hgraph]
    exact hlater
  | ok response =>
    obtain ⟨event, hone, hperformed⟩ := performed_of_run hmaster hfresh hserve
    have hversion := readsBack_of_run hcrates hmaster hfresh hserve hone
    obtain rfl : events = [event] := List.append_cancel_left (hsent.symm.trans hone)
    obtain ⟨hnamed, d, full, hready, hd, hwritten⟩ := hperformed.write hfresh hcarried
    rw [hgraph] at hready hd hnamed hwritten
    rw [hwritten] at hnow ⊢
    exact hlater.send hready hd hnamed hversion hnow

theorem lags_consume (hcrates : ReadsVersionsBack crates) (h : Lags crates ts s) {broker : Broker}
    {message : MessagingSystem.CommunicationMessage} {rest : List ReplicationEvent}
    {result : Except AnyhowError Unit} {w w' : World} (hnext : s.channel = event :: rest)
    (hmessage : Carries crates message event) (hack : broker.ack = .ok ())
    (hgraph : w.graph = s.slave) (hfresh : Fresh w.supply w.graph event.given)
    (hconsume : SchemaRegistry.run broker (Slave.consumeMessage crates message) w = (result, w'))
    (hok : ∀ i ∈ event.given, ¬ HasType s.slave i .definition)
    (hconsumed : consumed us = consumed ts ++ [event])
    (hmono : ∀ es g, Had crates ts es g → Had crates us es g) :
    result = .ok () ∧ Lags crates us { s with channel := rest, slave := w'.graph } := by
  obtain ⟨σ, g, hmirrors, horderly, hbehind⟩ := h
  rw [hnext] at hbehind
  cases hbehind with
  | @next _ _ _ _ _ d full hat hready hd hnamed hversion later =>
    have hready' : event.Ready crates w.graph full := by
      rw [hgraph]
      exact hmirrors.ready horderly hready fun i hi => hmirrors.fixed (hnamed i hi) (hok i hi)
    obtain ⟨w'', hrun, hwritten⟩ := consumed_of_ready hmessage hack hfresh hready'
    rw [hconsume, Prod.mk.injEq] at hrun
    obtain ⟨hresult, rfl⟩ := hrun
    have hdraws : event.Draws w.graph event.given (w.supply 0) := hfresh.draws
    rw [hgraph] at hready' hdraws hwritten
    obtain ⟨τ, hmirrors'⟩ := hmirrors.write hready hready' hd hdraws hnamed hok
    refine ⟨hresult, τ, _, ?_, horderly.write hready hd hnamed hcrates.first hversion, ?_⟩
    · rw [hwritten]
      exact hmirrors'
    · rw [hconsumed]
      exact later.mono hmono

/-- One step of the Master or of the Slave. -/
theorem lags_step (hcrates : ReadsVersionsBack crates) (hrun : Run (Step crates) start ts s)
    (h : Lags crates ts s) (next : Step crates s l s') (hok : Ok crates s l) :
    Lags crates (ts ++ [⟨s, l, s'⟩]) s' ∧
      ∀ event result, l = .consume event result → result = .ok () := by
  have hnow := had_now (hrun.step next)
  rw [sent_append, sent_eq hrun, sent_singleton, List.append_assoc] at hnow
  have hmono (es : List ReplicationEvent) (g : Graph) :
      Had crates ts es g → Had crates (ts ++ [⟨s, l, s'⟩]) es g := had_append ts _ es g
  have hconsumed : consumed (ts ++ [⟨s, l, s'⟩]) = consumed ts ++ l.consumed := by
    rw [consumed_append, consumed_singleton]
  cases next with
  | serve hmaster hgraph hfresh hserve hsent =>
    rw [Label.consumed, List.append_nil] at hconsumed
    exact ⟨lags_serve hcrates h hmaster hgraph hfresh hserve hsent hok hconsumed hmono hnow, nofun⟩
  | consume hnext hmessage hack hgraph hfresh hconsume =>
    obtain ⟨hresult, hafter⟩ := lags_consume hcrates h hnext hmessage hack hgraph hfresh hconsume hok
      hconsumed hmono
    refine ⟨hafter, fun event result heq => ?_⟩
    cases heq
    exact hresult

theorem lags_run (hcrates : ReadsVersionsBack crates) (hrun : Run (Step crates) start ts s)
    (hok : ∀ t ∈ ts, Ok crates t.before t.label) : Lags crates ts s ∧
      ∀ t ∈ ts, ∀ event result, t.label = .consume event result → result = .ok () := by
  induction hrun with
  | start =>
    exact ⟨⟨Equiv.refl Uuid, .empty, mirrors_refl _, orderly_empty, .done (had_now .start)⟩,
      List.forall_mem_nil _⟩
  | step earlier next ih =>
    rw [List.forall_mem_append, List.forall_mem_singleton] at hok
    obtain ⟨hlags, hearlier⟩ := ih hok.1
    obtain ⟨hafter, hresult⟩ := lags_step hcrates earlier hlags next hok.2
    rw [List.forall_mem_append, List.forall_mem_singleton]
    exact ⟨hafter, hearlier, hresult⟩

/-- The Slave consumes without an error, and it has the registry that the Master had when it had sent
what the Slave has consumed; so when nothing is in flight it has the Master's. -/
theorem mirrored_run (hcrates : ReadsVersionsBack crates) (hrun : Run (Step crates) start ts s)
    (hok : ∀ t ∈ ts, Ok crates t.before t.label) :
    (∀ t ∈ ts, ∀ event result, t.label = .consume event result → result = .ok ()) ∧
      (∃ us s', us <+: ts ∧ Run (Step crates) start us s' ∧ sent us = consumed ts ∧
        EqUpToDefinitions s'.master s.slave) ∧
      (s.channel = [] → EqUpToDefinitions s.master s.slave) := by
  obtain ⟨⟨σ, g, hmirrors, -, hbehind⟩, hresults⟩ := lags_run hcrates hrun hok
  have hsame := hmirrors.eqUpToDefinitions
  refine ⟨hresults, ?_, fun hempty => ?_⟩
  · obtain ⟨us, s', hprefix, hearlier, hsent, rfl⟩ := hbehind.start
    exact ⟨us, s', hprefix, hearlier, hsent, hsame⟩
  · rw [hempty] at hbehind
    exact hbehind.eq_of_empty ▸ hsame

/-! ## A schema and a view that are added -/

/-- The Slave consumes an event for which it is ready. -/
theorem step_consume_of_ready {message : MessagingSystem.CommunicationMessage}
    {rest : List ReplicationEvent} (broker : Broker) (w : World) (hnext : s.channel = event :: rest)
    (hmessage : Carries crates message event) (hack : broker.ack = .ok ()) (hgraph : w.graph = s.slave)
    (hfresh : Fresh w.supply w.graph event.given) (hready : event.Ready crates w.graph full) :
    Step crates s (.consume event (.ok ())) { s with
      channel := rest, slave := event.write crates (w.supply 0) full w.graph } := by
  obtain ⟨w', hrun, hwritten⟩ := consumed_of_ready hmessage hack hfresh hready
  rw [← hwritten]
  exact .consume hnext hmessage hack hgraph hfresh hrun

def addSchemaRequest : Request :=
  .addSchema (Uuid.toText 1) "orders" "\x7b\x7d" "topic" "address" 0

/-- The identifier of the view is the Master's choice. -/
def addViewRequest : Request := .addViewToSchema (Uuid.toText 1) "" "view" "name"

theorem readsVersionsBack_sample : ReadsVersionsBack sampleLogCrates where
  first := by decide +kernel
  parsed text version h := by
    have h : (if text = "1.0.0" then Except.ok (Version.new 1 0 0)
        else if text = "2.0.0" then .ok (.new 2 0 0)
        else .error "Error parsing major identifier") = .ok version := h
    split at h
    · cases h
      decide +kernel
    · split at h
      · cases h
        decide +kernel
      · cases h

theorem parseUuid_sampleLog : sampleLogCrates.parseUuid (Uuid.toText 1) = .ok 1 := by
  simp [sampleLogCrates, sampleViewCrates, sampleCrates]

/-- The Master's world after the request. -/
def sampleServed : World :=
  { graph := withSchema sampleLogCrates .empty 1 5 sampleNewSchema.split.1 ⟨sampleNewSchema.definition⟩,
    supply := fun n => (sampleWorld .empty 5 6).supply (n + 1), isMaster := true,
    sent := [addSchemaEvent], acks := 0 }

theorem run_addSchemaRequest : SchemaRegistry.run sampleBroker
    (handle sampleLogCrates addSchemaRequest) (sampleWorld .empty 5 6) =
      (.ok (.id (Uuid.toText 1)), sampleServed) := by
  have hfresh : Fresh (sampleWorld .empty 5 6).supply (sampleWorld .empty 5 6).graph
      (some (1 : Uuid)).toList :=
    ⟨by simp [sampleWorld], by decide, by decide⟩
  have hid : parseOptionalUuid sampleLogCrates (Uuid.toText 1) = .ok (some 1) := by
    rw [parseOptionalUuid, parseUuid_sampleLog, if_neg (by decide +kernel)]
    rfl
  have hadd : SchemaRegistry.run sampleBroker (db sampleLogCrates
      (SchemaRegistry.addSchema sampleLogCrates sampleNewSchema (some 1))) (sampleWorld .empty 5 6) =
      (.ok 1, { sampleServed with sent := [] }) := by
    rw [run_db_eq_ok, run_addSchema _ hfresh]
    rfl
  show SchemaRegistry.run sampleBroker (SchemaRegistryImpl.addSchema sampleLogCrates (Uuid.toText 1)
    "orders" "\x7b\x7d" "topic" "address" 0) _ = _
  unfold SchemaRegistryImpl.addSchema
  rw [hid]
  exact (run_bind_ok hadd _).trans rfl

theorem free_sampleServed {id : Uuid} (h1 : 1 ≠ id) (h5 : 5 ≠ id) :
    sampleServed.graph.vertexAt id = none := by
  show (withSchema _ _ _ _ _ _).vertexAt id = none
  rw [vertexAt_withSchema rfl rfl (by decide), if_neg h5, if_neg h1]
  rfl

theorem schema_sampleServed : HasType sampleServed.graph 1 .schema := ⟨_, rfl⟩

theorem fresh_sampleServed : Fresh (sampleWorld sampleServed.graph 3 6).supply sampleServed.graph [1] where
  free n _ := by
    cases n with
    | zero => exact free_sampleServed (by decide) (by decide)
    | succ n =>
      show sampleServed.graph.vertexAt 6 = none
      exact free_sampleServed (by decide) (by decide)
  notGiven n _ := by
    cases n with
    | zero => decide
    | succ n =>
      show (6 : Uuid) ∉ _
      decide
  distinct := by decide

/-- The Master's world after the second request. -/
def sampleServedView : World :=
  { graph := withView sampleServed.graph 1 3 sampleView,
    supply := fun n => (sampleWorld sampleServed.graph 3 6).supply (n + 1), isMaster := true,
    sent := [addViewEvent], acks := 0 }

theorem run_addViewRequest : SchemaRegistry.run sampleBroker
    (handle sampleLogCrates addViewRequest) (sampleWorld sampleServed.graph 3 6) =
      (.ok (.id (Uuid.toText 3)), sampleServedView) := by
  have hid : parseUuid sampleLogCrates (Uuid.toText 1) = .ok 1 := parseUuid_eq_ok parseUuid_sampleLog
  have houtcome : addViewOutcome sampleLogCrates (sampleWorld sampleServed.graph 3 6).supply
      sampleServed.graph 1 sampleView none = .ok (3, withView sampleServed.graph 1 3 sampleView) :=
    addViewOutcome_eq_ok.mpr ⟨schema_sampleServed.ne_none, rfl, by simp, rfl⟩
  have hadd : SchemaRegistry.run sampleBroker (db sampleLogCrates
      (SchemaRegistry.addViewToSchema sampleLogCrates 1 sampleView none))
      (sampleWorld sampleServed.graph 3 6) = (.ok 3, { sampleServedView with sent := [] }) := by
    rw [run_db_eq_ok, run_addViewToSchema _ fresh_sampleServed]
    exact (congrArg _ houtcome).trans rfl
  show SchemaRegistry.run sampleBroker (SchemaRegistryImpl.addViewToSchema sampleLogCrates
    (Uuid.toText 1) "" "view" "name") _ = _
  unfold SchemaRegistryImpl.addViewToSchema
  rw [hid]
  exact (run_bind_ok hadd _).trans rfl

def sampleReplicas : Replicas :=
  { master := sampleServedView.graph, channel := [], slave := sampleSlaveAdded.graph }

theorem given_addSchemaRequest : addSchemaRequest.given sampleLogCrates = [1] := by
  rw [addSchemaRequest, Request.given, parseUuid_sampleLog]
  rfl

theorem given_addViewRequest : addViewRequest.given sampleLogCrates = [1] := by
  rw [addViewRequest, Request.given, parseUuid_sampleLog]
  rfl

theorem step_addSchemaRequest :
    Step sampleLogCrates start (.serve sampleBroker addSchemaRequest [addSchemaEvent])
      { master := sampleServed.graph, channel := [addSchemaEvent], slave := .empty } := by
  have hfresh : Fresh (sampleWorld .empty 5 6).supply (sampleWorld .empty 5 6).graph
      (addSchemaRequest.given sampleLogCrates) := by
    rw [given_addSchemaRequest]
    exact ⟨by simp [sampleWorld], by decide, by decide⟩
  exact .serve rfl rfl hfresh run_addSchemaRequest rfl

theorem step_addViewRequest : Step sampleLogCrates
    { master := sampleServed.graph, channel := [addSchemaEvent], slave := .empty }
    (.serve sampleBroker addViewRequest [addViewEvent])
    { master := sampleServedView.graph, channel := [addSchemaEvent, addViewEvent], slave := .empty } := by
  have hfresh : Fresh (sampleWorld sampleServed.graph 3 6).supply sampleServed.graph
      (addViewRequest.given sampleLogCrates) := by
    rw [given_addViewRequest]
    exact fresh_sampleServed
  exact .serve (w := sampleWorld sampleServed.graph 3 6) rfl rfl hfresh run_addViewRequest rfl

theorem step_addSchemaEvent : Step sampleLogCrates
    { master := sampleServedView.graph, channel := [addSchemaEvent, addViewEvent], slave := .empty }
    (.consume addSchemaEvent (.ok ()))
    { master := sampleServedView.graph, channel := [addViewEvent], slave := sampleGraph } := by
  have hready : addSchemaEvent.Ready sampleLogCrates .empty ⟨.object []⟩ := ⟨rfl, rfl⟩
  have hfresh : Fresh (sampleWorld .empty 2 4).supply Graph.empty addSchemaEvent.given :=
    ⟨by simp [sampleWorld], by decide, by decide⟩
  exact step_consume_of_ready sampleBroker (sampleWorld .empty 2 4) rfl carries_addSchema rfl rfl hfresh
    hready

theorem schema_sampleGraph : HasType sampleGraph 1 .schema := ⟨_, rfl⟩

theorem step_addViewEvent : Step sampleLogCrates
    { master := sampleServedView.graph, channel := [addViewEvent], slave := sampleGraph }
    (.consume addViewEvent (.ok ())) sampleReplicas := by
  have hready : addViewEvent.Ready sampleLogCrates sampleGraph ⟨.null⟩ :=
    ⟨schema_sampleGraph.ne_none, rfl, free_sampleGraph (by decide) (by decide)⟩
  exact step_consume_of_ready sampleBroker sampleSlave rfl carries_addView rfl rfl
    (fresh_sampleSlave.of_subset (by decide)) hready

/-- Both requests are served before the Slave consumes the first event. The definition has the
identifier 5 on the Master and 2 on the Slave. -/
theorem run_sampleReplicas : ∃ ts, Run (Step sampleLogCrates) start ts sampleReplicas ∧
    (∀ t ∈ ts, Ok sampleLogCrates t.before t.label) ∧ ts.map (·.label) =
      [.serve sampleBroker addSchemaRequest [addSchemaEvent],
        .serve sampleBroker addViewRequest [addViewEvent],
        .consume addSchemaEvent (.ok ()), .consume addViewEvent (.ok ())] := by
  have hserved := (Run.start.step step_addSchemaRequest).step step_addViewRequest
  refine ⟨_, (hserved.step step_addSchemaEvent).step step_addViewEvent, ?_, rfl⟩
  have hnone (i : Uuid) : ¬ HasType .empty i .definition := fun h => h.ne_none (Graph.vertexAt_empty i)
  have hview : ¬ HasType sampleGraph 3 .definition :=
    fun h => h.ne_none (free_sampleGraph (by decide) (by decide))
  simp only [List.nil_append, List.cons_append, List.forall_mem_cons]
  refine ⟨⟨not_false, not_false, fun i _ => hnone i⟩, ⟨not_false, not_false, ?_⟩, fun i _ => hnone i,
    ?_, List.forall_mem_nil _⟩
  · rw [given_addViewRequest]
    refine List.forall_mem_singleton.mpr fun hdefinition => ?_
    cases schema_sampleServed.unique hdefinition
  · refine List.forall_mem_cons.mpr ⟨fun hdefinition => ?_, List.forall_mem_singleton.mpr hview⟩
    cases schema_sampleGraph.unique hdefinition

theorem mirrored_run_sampleReplicas : ∃ ts, Run (Step sampleLogCrates) start ts sampleReplicas ∧
    consumed ts = [addSchemaEvent, addViewEvent] ∧
    EqUpToDefinitions sampleReplicas.master sampleReplicas.slave := by
  obtain ⟨ts, hrun, hok, hlabels⟩ := run_sampleReplicas
  refine ⟨ts, hrun, ?_, (mirrored_run readsVersionsBack_sample hrun hok).2.2 rfl⟩
  rw [consumed, ← List.flatMap_map, hlabels]
  rfl

end Replicas
end CommonDataLayer.SchemaRegistry
