import CommonDataLayer.Foundations.DualWrite
import CommonDataLayer.Foundations.Runs
import CommonDataLayer.SchemaRegistry.ReplicationEffect

/-! # Events of concurrent requests are sent out of order

A handler changes the database and then, under another lock, sends its event. `Server` is a Master
with any number of handlers; a step is one handler's database operation, or one handler's
`replicate_message`. `Logs` records which requests were applied and what is on the replication
channel, with the handlers.

`inOrder_run`: the events of one schema or view are sent in the order in which they were applied,
whatever handler goes on next, exactly if no request is applied while the event of a related one has
not been sent.
-/
namespace CommonDataLayer.SchemaRegistry
open Interaction PropertyGraph SchemaRegistryImpl TransitionSystem
set_option autoImplicit false

inductive Handler where
  | received (request : Request)
  /-- The effect is in the database, the event is not sent yet. -/
  | applied (event : ReplicationEvent)
  | finished

structure Server where
  graph : Graph
  handlers : ℕ → Handler
  logs : DualWrite.Logs (ℕ × ReplicationEvent)

/-- The schemas and views that a sent event concerns. -/
def entities (sent : ℕ × ReplicationEvent) : List Uuid := sent.2.given

namespace Server

def start (g : Graph) (requests : ℕ → Option Request) : Server where
  graph := g
  handlers i := match requests i with
    | some request => .received request
    | none => .finished
  logs := .empty

inductive Label where
  | apply (i : ℕ) (event : ReplicationEvent)
  | fail (i : ℕ)
  | send (i : ℕ) (event : ReplicationEvent)

/-- One handler goes on. Its operation on the database and its `replicate_message` are the two parts
of the program `handle`. -/
inductive Step (crates : Crates) : Server → Label → Server → Prop where
  | apply {s : Server} {i : ℕ} {request : Request} {broker : Broker} {w w' : World}
      {response : Response} {event : ReplicationEvent} (hi : s.handlers i = .received request)
      (hgraph : w.graph = s.graph) (hmaster : w.isMaster = true)
      (hrun : run broker (handle crates request) w = (.ok response, w'))
      (hsent : w'.sent = w.sent ++ [event]) :
      Step crates s (.apply i event) {
        graph := w'.graph
        handlers := Function.update s.handlers i (.applied event)
        logs := s.logs.apply (i, event) }
  | fail {s : Server} {i : ℕ} {request : Request} {broker : Broker} {w w' : World}
      {status : Status} (hi : s.handlers i = .received request) (hgraph : w.graph = s.graph)
      (hmaster : w.isMaster = true)
      (hrun : run broker (handle crates request) w = (.error status, w')) :
      Step crates s (.fail i) {
        graph := w'.graph
        handlers := Function.update s.handlers i .finished
        logs := s.logs }
  | send {s : Server} {i : ℕ} {event : ReplicationEvent} (hi : s.handlers i = .applied event) :
      Step crates s (.send i event) {
        graph := s.graph
        handlers := Function.update s.handlers i .finished
        logs := s.logs.emit (i, event) }

/-- Handlers that have applied their requests send their events, in any order. -/
inductive Sends (crates : Crates) : Server → Server → Prop where
  | refl (s : Server) : Sends crates s s
  | tail {s t u : Server} {i : ℕ} {event : ReplicationEvent} (sends : Sends crates s t)
      (next : Step crates t (.send i event) u) : Sends crates s u

/-- The events of every schema and view are on the channel in the order in which they were
applied. -/
def InOrder (s : Server) : Prop := DualWrite.InOrder entities s.logs

/-- The step applies a request while a related event has not been sent. -/
def Overlaps (s : Server) : Label → Prop
  | .apply i event =>
    ∃ j earlier, s.handlers j = .applied earlier ∧ DualWrite.Related entities (j, earlier) (i, event)
  | .fail _ => False
  | .send _ _ => False

/-! ## Handlers and logs -/

/-- The handlers that have to send are those of the events that wait. -/
structure Linked (handlers : ℕ → Handler) (logs : DualWrite.Logs (ℕ × ReplicationEvent)) :
    Prop where
  waiting : ∀ i event, handlers i = .applied event ↔ DualWrite.Waiting logs (i, event)
  received : ∀ i request, handlers i = .received request →
    ∀ event, (i, event) ∉ logs.applied ∧ (i, event) ∉ logs.emitted

section Linked
variable {handlers : ℕ → Handler} {logs : DualWrite.Logs (ℕ × ReplicationEvent)} {i : ℕ}
  {request : Request} {event : ReplicationEvent}

theorem linked_start (g : Graph) (requests : ℕ → Option Request) :
    Linked (start g requests).handlers (start g requests).logs where
  waiting i event := by
    refine iff_of_false (fun h => ?_) fun h => by cases h.1
    unfold start at h
    dsimp only at h
    split at h <;> cases h
  received _ _ _ _ := ⟨List.not_mem_nil, List.not_mem_nil⟩

theorem received_of_update {new : Handler} (hnew : ∀ request, new ≠ .received request) {j : ℕ}
    (h : Function.update handlers i new j = .received request) :
    j ≠ i ∧ handlers j = .received request := by
  by_cases hj : j = i
  · rw [hj, Function.update_self] at h
    exact absurd h (hnew request)
  · rw [Function.update_of_ne hj] at h
    exact ⟨hj, h⟩

theorem Linked.apply (h : Linked handlers logs) (hi : handlers i = .received request) :
    Linked (Function.update handlers i (.applied event)) (logs.apply (i, event)) where
  waiting j other := by
    obtain ⟨happlied, hemitted⟩ := h.received i request hi other
    simp only [DualWrite.Waiting, DualWrite.Logs.apply, List.mem_append, List.mem_singleton,
      Prod.mk.injEq]
    by_cases hj : j = i
    · subst hj
      simp only [Function.update_self, Handler.applied.injEq, happlied, hemitted, false_or, true_and,
        not_false_eq_true, and_true]
      exact eq_comm
    · rw [Function.update_of_ne hj, h.waiting, DualWrite.Waiting]
      simp only [hj, false_and, or_false]
  received j other hj event' := by
    obtain ⟨hne, hj⟩ := received_of_update (fun _ => Handler.noConfusion) hj
    obtain ⟨happlied, hemitted⟩ := h.received j other hj event'
    refine ⟨fun hmem => (List.mem_append.mp hmem).elim happlied fun hmem => ?_, hemitted⟩
    exact hne (congrArg Prod.fst (List.mem_singleton.mp hmem))

theorem Linked.fail (h : Linked handlers logs) (hi : handlers i = .received request) :
    Linked (Function.update handlers i .finished) logs where
  waiting j other := by
    by_cases hj : j = i
    · subst hj
      rw [Function.update_self]
      exact iff_of_false Handler.noConfusion fun hw => (h.received j request hi other).1 hw.1
    · rw [Function.update_of_ne hj]
      exact h.waiting j other
  received j other hj :=
    h.received j other (received_of_update (fun _ => Handler.noConfusion) hj).2

theorem Linked.send (h : Linked handlers logs) (hi : handlers i = .applied event) :
    Linked (Function.update handlers i .finished) (logs.emit (i, event)) where
  waiting j other := by
    simp only [DualWrite.Waiting, DualWrite.Logs.emit, List.mem_append, List.mem_singleton, not_or]
    by_cases hj : j = i
    · subst hj
      rw [Function.update_self]
      refine iff_of_false Handler.noConfusion fun hw => hw.2.2 ?_
      have hsame := (h.waiting j other).mpr ⟨hw.1, hw.2.1⟩
      rw [hi, Handler.applied.injEq] at hsame
      rw [hsame]
    · rw [Function.update_of_ne hj, h.waiting, DualWrite.Waiting]
      have hne : (j, other) ≠ (i, event) := fun heq => hj (congrArg Prod.fst heq)
      simp only [hne, not_false_eq_true, and_true]
  received j other hj event' := by
    obtain ⟨hne, hj⟩ := received_of_update (fun _ => Handler.noConfusion) hj
    obtain ⟨happlied, hemitted⟩ := h.received j other hj event'
    refine ⟨happlied, fun hmem => (List.mem_append.mp hmem).elim hemitted fun hmem => ?_⟩
    exact hne (congrArg Prod.fst (List.mem_singleton.mp hmem))

end Linked

variable {crates : Crates} {s s' : Server} {label : Label}

/-! ## Steps and runs -/

/-- The handlers are linked to the logs, and no event waits behind a related one. -/
structure Good (s : Server) : Prop where
  linked : Linked s.handlers s.logs
  serial : DualWrite.Serial entities s.logs

theorem Good.step (h : Good s) (hstep : Step crates s label s') (hclear : ¬ Overlaps s label) :
    Good s' := by
  cases hstep with
  | apply hi _ _ _ _ =>
    refine ⟨h.linked.apply hi, h.serial.apply fun hoverlaps => hclear ?_⟩
    obtain ⟨⟨j, earlier⟩, hwaiting, hrelated⟩ := hoverlaps
    exact ⟨j, earlier, (h.linked.waiting j earlier).mpr hwaiting, hrelated⟩
  | fail hi _ _ _ => exact ⟨h.linked.fail hi, h.serial⟩
  | send hi => exact ⟨h.linked.send hi, h.serial.emit ((h.linked.waiting _ _).mp hi)⟩

theorem Good.sends (h : Good s) (hsends : Sends crates s s') : Good s' := by
  induction hsends with
  | refl => exact h
  | tail _ next ih => exact ih.step next not_false

theorem sends_two {t : Server} {i j : ℕ} {first second : ReplicationEvent}
    (hi : t.handlers i = .applied first) (hj : t.handlers j = .applied second) (hne : j ≠ i) :
    ∃ u, Sends crates t u ∧ u.logs = (t.logs.emit (i, first)).emit (j, second) := by
  have hj' : Function.update t.handlers i .finished j = .applied second := by
    rw [Function.update_of_ne hne]
    exact hj
  exact ⟨_, .tail (.tail (.refl t) (.send hi)) (.send hj'), rfl⟩

/-- A request that is applied while a related event waits can be sent before it. -/
theorem overtaken (h : Good s) (hstep : Step crates s label s') (hoverlaps : Overlaps s label) :
    ∃ t, Sends crates s' t ∧ ¬ InOrder t := by
  cases hstep with
  | fail => exact hoverlaps.elim
  | send => exact hoverlaps.elim
  | @apply i request _ _ w' _ event hi _ _ _ _ =>
    obtain ⟨j, earlier, hj, hrelated⟩ := hoverlaps
    have hne : j ≠ i := by
      intro heq
      rw [heq, hi] at hj
      cases hj
    have hj' : Function.update s.handlers i (.applied event) j = .applied earlier := by
      rw [Function.update_of_ne hne]
      exact hj
    obtain ⟨t, hsends, hlogs⟩ := sends_two (t := {
      graph := w'.graph
      handlers := Function.update s.handlers i (.applied event)
      logs := s.logs.apply (i, event) }) (Function.update_self ..) hj' hne
    refine ⟨t, hsends, ?_⟩
    rw [InOrder, hlogs]
    exact DualWrite.not_inOrder_overtaken (h.linked.received i request hi event).1
      ((h.linked.waiting j earlier).mp hj).1 hrelated

/-- In a run of any handlers, the events can be sent only in the order of their effects, exactly if
no request is applied while a related event has not been sent. -/
theorem inOrder_run {g : Graph} {requests : ℕ → Option Request}
    {ts : List (Transition Server Label)} (hrun : Run (Step crates) (start g requests) ts s) :
    (∀ t ∈ states (start g requests) ts, ∀ t', Sends crates t t' → InOrder t') ↔
      ∀ t ∈ ts, ¬ Overlaps t.before t.label := by
  have hstart : Good (start g requests) := ⟨linked_start g requests, .empty⟩
  have hstep : ∀ s l s', Good s → Step crates s l s' → ¬ Overlaps s l → Good s' :=
    fun _ _ _ h next hclear => h.step next hclear
  refine hrun.states_iff hstart (fun s h t hsends => (h.sends hsends).serial.inOrder) hstep
    fun s l s' h next hnot horder => ?_
  obtain ⟨t, hsends, hbroken⟩ := overtaken h next (not_not.mp hnot)
  exact hbroken (horder t hsends)

/-! ## Two names for one schema -/

def renameRequest (name : String) : Request :=
  .updateSchemaMetadata (Uuid.toText 1) (some name) none none none

def renameEvent (name : String) : ReplicationEvent :=
  .updateSchemaMetadata 1 (some name) none none none

theorem run_renameRequest {w : World} (hmaster : w.isMaster = true)
    (hschema : w.graph.vertexAt 1 ≠ none) (name : String) :
    run sampleBroker (handle sampleEventCrates (renameRequest name)) w = (.ok .empty, { w with
      graph := w.graph.setVertexProperty 1 .schemaName (.string name)
      sent := w.sent ++ [renameEvent name] }) := by
  have hparse : parseUuid sampleEventCrates (Uuid.toText 1) = .ok 1 := parseUuid_eq_ok parse_sampleId
  have hupdate : run sampleBroker (db sampleEventCrates (updateSchemaName 1 name)) w =
      (.ok (), { w with graph := w.graph.setVertexProperty 1 .schemaName (.string name) }) := by
    refine run_db_eq_ok.mpr ?_
    have hset : updateSchemaPropertyOutcome w.graph .schemaName 1 name = .ok _ :=
      updateSchemaPropertyOutcome_eq_ok.mpr ⟨hschema, rfl⟩
    rw [updateSchemaName, run_updateSchemaProperty, hset]
    rfl
  show run sampleBroker (SchemaRegistryImpl.updateSchemaMetadata sampleEventCrates (Uuid.toText 1)
    (some name) none none none) w = _
  unfold SchemaRegistryImpl.updateSchemaMetadata
  rw [hparse]
  refine (run_bind_ok hupdate _).trans ?_
  have hrenamed : { w with
      graph := w.graph.setVertexProperty 1 .schemaName (.string name) }.isMaster = true := hmaster
  have hsend : run sampleBroker _ _ = _ := run_replicateMessage hrenamed (renameEvent name)
  exact (run_bind_ok hsend fun _ => return Response.empty).trans rfl

/-- A handler renames the schema. -/
def renamed (s : Server) (i : ℕ) (name : String) : Server where
  graph := s.graph.setVertexProperty 1 .schemaName (.string name)
  handlers := Function.update s.handlers i (.applied (renameEvent name))
  logs := s.logs.apply (i, renameEvent name)

/-- A handler sends the event of its new name. -/
def announced (s : Server) (i : ℕ) (name : String) : Server where
  graph := s.graph
  handlers := Function.update s.handlers i .finished
  logs := s.logs.emit (i, renameEvent name)

section Renamed
variable {i : ℕ} {name : String}

theorem step_renamed (hi : s.handlers i = .received (renameRequest name))
    (hschema : s.graph.vertexAt 1 ≠ none) :
    Step sampleEventCrates s (.apply i (renameEvent name)) (s.renamed i name) :=
  .apply (w := sampleWorld s.graph 5 6) hi rfl rfl (run_renameRequest rfl hschema name) rfl

theorem step_announced (hi : s.handlers i = .applied (renameEvent name)) :
    Step sampleEventCrates s (.send i (renameEvent name)) (s.announced i name) := .send hi

theorem vertexAt_renamed (i : ℕ) (name : String) (hschema : s.graph.vertexAt 1 ≠ none) :
    (s.renamed i name).graph.vertexAt 1 ≠ none := by
  rw [renamed, Graph.vertexAt_setVertexProperty, if_pos rfl, ne_eq, Option.map_eq_none_iff]
  exact hschema

/-- Nothing overlaps with a request when no event waits. -/
theorem not_overlaps (hnone : ∀ j event, s.handlers j ≠ .applied event) : ¬ Overlaps s label := by
  cases label with
  | apply i event =>
    rintro ⟨j, earlier, hj, -⟩
    exact hnone j earlier hj
  | fail i => exact not_false
  | send i event => exact not_false

end Renamed

def sampleRequests : ℕ → Option Request
  | 0 => some (renameRequest "a")
  | 1 => some (renameRequest "b")
  | _ => none

def sampleServer : Server := start sampleGraph sampleRequests

theorem vertexAt_sampleServer : sampleServer.graph.vertexAt 1 ≠ none := by
  show sampleGraph.vertexAt 1 ≠ none
  rw [vertexAt_sampleGraph]
  exact Option.some_ne_none _

theorem sampleServer_waits (j : ℕ) (event : ReplicationEvent) :
    sampleServer.handlers j ≠ .applied event := fun hj =>
  List.not_mem_nil (((linked_start sampleGraph sampleRequests).waiting j event).mp hj).1

/-- The handlers rename the schema one after the other, and each sends its event at once. -/
theorem inOrder_run_sampleServer : ∃ ts s, Run (Step sampleEventCrates) sampleServer ts s ∧
    s.logs.emitted = [(0, renameEvent "a"), (1, renameEvent "b")] ∧
    ∀ t ∈ states sampleServer ts, ∀ t', Sends sampleEventCrates t t' → InOrder t' := by
  let between : Server := (sampleServer.renamed 0 "a").announced 0 "a"
  have hfirst : Run (Step sampleEventCrates) sampleServer _ between :=
    (Run.start.step (step_renamed rfl vertexAt_sampleServer)).step (step_announced rfl)
  have hrun : Run (Step sampleEventCrates) sampleServer _ ((between.renamed 1 "b").announced 1 "b") :=
    (hfirst.step (step_renamed rfl (vertexAt_renamed 0 "a" vertexAt_sampleServer))).step
      (step_announced rfl)
  refine ⟨_, _, hrun, rfl, (inOrder_run hrun).mpr ?_⟩
  have hbetween (j : ℕ) (event : ReplicationEvent) : between.handlers j ≠ .applied event := by
    by_cases hj : j = 0
    · subst hj
      exact Handler.noConfusion
    · have hother : between.handlers j = sampleServer.handlers j :=
        (Function.update_of_ne hj _ _).trans (Function.update_of_ne hj _ _)
      rw [hother]
      exact sampleServer_waits j event
  simp only [List.nil_append, List.cons_append, List.forall_mem_cons]
  exact ⟨not_overlaps sampleServer_waits, not_false, not_overlaps hbetween, not_false,
    List.forall_mem_nil _⟩

/-- The schema is named "a" and then "b", and the events are sent the other way round. -/
theorem not_inOrder_renamed : ∃ ts s, Run (Step sampleEventCrates) sampleServer ts s ∧
    s.logs.applied = [(0, renameEvent "a"), (1, renameEvent "b")] ∧
    s.logs.emitted = [(1, renameEvent "b"), (0, renameEvent "a")] ∧ ¬ InOrder s := by
  let both : Server := (sampleServer.renamed 0 "a").renamed 1 "b"
  have happlied : Run (Step sampleEventCrates) sampleServer _ both :=
    (Run.start.step (step_renamed rfl vertexAt_sampleServer)).step
      (step_renamed rfl (vertexAt_renamed 0 "a" vertexAt_sampleServer))
  have hrun : Run (Step sampleEventCrates) sampleServer _ ((both.announced 1 "b").announced 0 "a") :=
    (happlied.step (step_announced rfl)).step (step_announced rfl)
  refine ⟨_, _, hrun, rfl, rfl, ?_⟩
  refine DualWrite.not_inOrder_overtaken (s := (sampleServer.renamed 0 "a").logs) ?_ ?_ ?_
  · simp [renamed, sampleServer, start, DualWrite.Logs.apply, DualWrite.Logs.empty]
  · exact List.mem_singleton_self _
  · exact ⟨1, List.mem_singleton_self _, List.mem_singleton_self _⟩

end Server
end CommonDataLayer.SchemaRegistry
