import CommonDataLayer.CommandService.DruidOutputPlugin
import CommonDataLayer.CommandService.PostgresOutputPlugin
import CommonDataLayer.CommandService.VictoriaMetricsOutputPlugin

/-! # What the resolution of a plugin says

An output plugin derives records from a message and hands them to its backend. `Truthful` is what its
resolution has to say about them: a success only if every call was accepted and together they carried
all records. PostgreSQL and VictoriaMetrics keep to it; Druid does as long as no send is rejected
(`truthful_iff`).
-/
namespace CommonDataLayer.CommandService
open Interaction
set_option autoImplicit false

/-- A plugin, with what its calls hand to the backend and which answers accept it. -/
structure OutputPlugin where
  Call : Type
  Answer : Call → Type
  Record : Type
  handleMessage : BorrowedInsertMessage → Program Answer Resolution
  /-- The records of a message; none at all if its payload is unparsable. -/
  records : BorrowedInsertMessage → Option (List Record)
  Carries : Call → List Record → Prop
  Accepts : (q : Call) → Answer q → Prop

namespace OutputPlugin
variable {plugin : OutputPlugin}

/-- Every call was accepted, and together they carried the records. -/
inductive Accepted (plugin : OutputPlugin) :
    List (Event plugin.Answer) → List plugin.Record → Prop where
  | nil : Accepted plugin [] []
  | cons {q : plugin.Call} {a : plugin.Answer q} {t : List (Event plugin.Answer)}
      {records rest : List plugin.Record} (carries : plugin.Carries q records)
      (accepts : plugin.Accepts q a) (accepted : Accepted plugin t rest) :
      Accepted plugin (⟨q, a⟩ :: t) (records ++ rest)

structure Truthful (plugin : OutputPlugin) (msg : BorrowedInsertMessage)
    (t : List (Event plugin.Answer)) (r : Resolution) : Prop where
  success : r = .success → ∃ records, plugin.records msg = some records ∧ plugin.Accepted t records
  unparsable : plugin.records msg = none → r ≠ .success
  rejected : (∃ e ∈ t, ¬ plugin.Accepts e.1 e.2) → r ≠ .success

theorem Accepted.single {q : plugin.Call} {a : plugin.Answer q} {records : List plugin.Record}
    (carries : plugin.Carries q records) (accepts : plugin.Accepts q a) :
    plugin.Accepted [⟨q, a⟩] records := by
  have h := Accepted.cons carries accepts .nil
  rw [List.append_nil] at h
  exact h

theorem Accepted.accepts {t : List (Event plugin.Answer)} {records : List plugin.Record}
    (h : plugin.Accepted t records) : ∀ e ∈ t, plugin.Accepts e.1 e.2 := by
  induction h with
  | nil => exact List.forall_mem_nil _
  | cons _ accepts _ ih => exact List.forall_mem_cons.mpr ⟨accepts, ih⟩

theorem truthful_of_success {msg : BorrowedInsertMessage} {t : List (Event plugin.Answer)} {r : Resolution}
    (h : r = .success → ∃ records, plugin.records msg = some records ∧ plugin.Accepted t records) :
    plugin.Truthful msg t r := by
  refine ⟨h, fun hnone hr => ?_, fun ⟨e, he, hrejected⟩ hr => ?_⟩
  · obtain ⟨records, hsome, -⟩ := h hr
    rw [hnone] at hsome
    cases hsome
  · obtain ⟨records, -, haccepted⟩ := h hr
    exact hrejected (haccepted.accepts e he)

end OutputPlugin

/-! ## The three plugins -/

/-- The plugin that is configured. -/
inductive OutputArgs where
  | postgres (json : SerdeJson)
  | druid (json : DruidOutputPlugin.Json) (topic : String)
  | victoriaMetrics (json : VictoriaMetricsOutputPlugin.Json)

def postgres (json : SerdeJson) : OutputPlugin where
  Call := PostgresOutputPlugin.Call
  Answer := PostgresOutputPlugin.Answer
  Record := Postgres.Row
  handleMessage := PostgresOutputPlugin.handleMessage json
  records msg := (PostgresOutputPlugin.rowOf json msg).map fun row => [row]
  Carries
    | .getConnection, rows => rows = []
    | .insert row, rows => rows = [row]
  Accepts
    | .getConnection, r => r = .ok ()
    | .insert _, r => r = .ok ()

def druid (json : DruidOutputPlugin.Json) (topic : String) : OutputPlugin where
  Call := DruidOutputPlugin.Call
  Answer := DruidOutputPlugin.Answer
  Record := DruidOutputPlugin.FutureRecord
  handleMessage := DruidOutputPlugin.handleMessage json topic
  records msg := (DruidOutputPlugin.deserializePayloads json msg).toOption.map
    (List.map (DruidOutputPlugin.toRecord topic msg))
  Carries
    | .send record, records => records = [record]
  Accepts
    | .send _, r => r = .ok ()

/-- One request carries all lines, to the database of their measurement. -/
def victoriaMetrics (json : VictoriaMetricsOutputPlugin.Json) : OutputPlugin where
  Call := VictoriaMetricsOutputPlugin.Call
  Answer := VictoriaMetricsOutputPlugin.Answer
  Record := VictoriaMetrics.Line
  handleMessage := VictoriaMetricsOutputPlugin.handleMessage json
  records msg :=
    (VictoriaMetricsOutputPlugin.buildLines json msg.schemaId msg.objectId msg.data).toOption
  Carries
    | .post query body, lines => body = "\n".intercalate (lines.map VictoriaMetrics.Line.toText) ∧
      ∀ line ∈ lines, query = "db=" ++ line.measurement
  Accepts
    | .post _ _, r => ∃ response, r = .ok response ∧ (response.status = .ok ∨ response.status = .noContent)

def OutputArgs.plugin : OutputArgs → OutputPlugin
  | postgres json => CommandService.postgres json
  | druid json topic => CommandService.druid json topic
  | victoriaMetrics json => CommandService.victoriaMetrics json

/-! ## Their resolutions -/

variable {msg : BorrowedInsertMessage} {r : Resolution}

theorem truthful_postgres {json : SerdeJson} {t : List (Event PostgresOutputPlugin.Answer)}
    (h : Returns (PostgresOutputPlugin.handleMessage json msg) t r) :
    (postgres json).Truthful msg t r := by
  refine OutputPlugin.truthful_of_success fun hr => ?_
  subst hr
  obtain ⟨connection, t₁, t₂, rfl, h₁, h₂⟩ := returns_bind.mp h
  obtain rfl := returns_perform.mp h₁
  cases connection with
  | error err => cases (steps_ret.mp h₂).2
  | ok _ =>
    cases hvalue : json.value msg.data.get with
    | error err =>
      simp only [hvalue] at h₂
      cases (steps_ret.mp h₂).2
    | ok payload =>
      simp only [hvalue] at h₂
      obtain ⟨stored, t₃, t₄, rfl, h₃, h₄⟩ := returns_bind.mp h₂
      obtain rfl := returns_perform.mp h₃
      cases stored with
      | error err => cases (steps_ret.mp h₄).2
      | ok _ =>
        obtain ⟨rfl, -⟩ := steps_ret.mp h₄
        refine ⟨[PostgresOutputPlugin.toRow msg payload], ?_, ?_⟩
        · simp [postgres, PostgresOutputPlugin.rowOf, hvalue, Except.toOption]
        · show (postgres json).Accepted _ ([] ++ ([PostgresOutputPlugin.toRow msg payload] ++ []))
          exact .cons rfl rfl (.cons rfl rfl .nil)

theorem truthful_victoriaMetrics {json : VictoriaMetricsOutputPlugin.Json}
    {t : List (Event VictoriaMetricsOutputPlugin.Answer)}
    (h : Returns (VictoriaMetricsOutputPlugin.handleMessage json msg) t r) :
    (victoriaMetrics json).Truthful msg t r := by
  refine OutputPlugin.truthful_of_success fun hr => ?_
  subst hr
  unfold VictoriaMetricsOutputPlugin.handleMessage VictoriaMetricsOutputPlugin.buildLineProtocol at h
  cases hlines : VictoriaMetricsOutputPlugin.buildLines json msg.schemaId msg.objectId msg.data with
  | error err =>
    rw [hlines] at h
    cases (steps_ret.mp h).2
  | ok lines =>
    rw [hlines] at h
    obtain ⟨answer, t₁, rfl, h₁⟩ := returns_call.mp h
    have hmeasurement : ∀ line ∈ lines, line.measurement = msg.schemaId.toText := by
      obtain ⟨-, -, -, hline⟩ := VictoriaMetricsOutputPlugin.buildLines_ok hlines
      exact fun line hmem => (hline line hmem).1
    have hcarries : (victoriaMetrics json).Carries (.post ("db=" ++ msg.schemaId.toText)
        ("\n".intercalate (lines.map VictoriaMetrics.Line.toText))) lines :=
      ⟨rfl, fun line hline => by rw [hmeasurement line hline]⟩
    have hrecords : (victoriaMetrics json).records msg = some lines := by
      simp [victoriaMetrics, hlines, Except.toOption]
    cases answer with
    | error err => cases (steps_ret.mp h₁).2
    | ok response =>
      obtain ⟨status, text⟩ := response
      cases status with
      | ok =>
        obtain ⟨rfl, -⟩ := steps_ret.mp h₁
        exact ⟨lines, hrecords, .single hcarries ⟨⟨.ok, text⟩, rfl, .inl rfl⟩⟩
      | noContent =>
        obtain ⟨rfl, -⟩ := steps_ret.mp h₁
        exact ⟨lines, hrecords, .single hcarries ⟨⟨.noContent, text⟩, rfl, .inr rfl⟩⟩
      | other code =>
        cases text with
        | ok text => cases (steps_ret.mp h₁).2
        | error err => cases (steps_ret.mp h₁).2

/-- The sends of Druid, if none was rejected. -/
theorem accepted_druid {json : DruidOutputPlugin.Json} {topic : String}
    {records : List DruidOutputPlugin.FutureRecord} {t : List (Event DruidOutputPlugin.Answer)}
    (hsent : List.Forall₂ (fun record event => event.1 = DruidOutputPlugin.Call.send record) records t)
    (haccepts : ∀ e ∈ t, (druid json topic).Accepts e.1 e.2) : (druid json topic).Accepted t records := by
  induction hsent with
  | nil => exact .nil
  | @cons record event records t hevent _ ih =>
    rw [List.forall_mem_cons] at haccepts
    obtain ⟨q, a⟩ := event
    obtain rfl : q = .send record := hevent
    show (druid json topic).Accepted _ ([record] ++ records)
    exact .cons rfl haccepts.1 (ih haccepts.2)

/-- Druid says the truth exactly if no send was rejected. -/
theorem truthful_druid_iff {json : DruidOutputPlugin.Json} {topic : String}
    {t : List (Event DruidOutputPlugin.Answer)}
    (h : Returns (DruidOutputPlugin.handleMessage json topic msg) t r) :
    (druid json topic).Truthful msg t r ↔ ∀ e ∈ t, (druid json topic).Accepts e.1 e.2 := by
  rcases DruidOutputPlugin.returns_handleMessage h with
    ⟨err, -, rfl, rfl⟩ | ⟨payloads, hpayloads, rfl, hsent⟩
  · refine iff_of_true (OutputPlugin.truthful_of_success fun hr => by cases hr) ?_
    exact List.forall_mem_nil _
  · constructor
    · intro htruthful e he
      by_contra hrejected
      exact htruthful.rejected ⟨e, he, hrejected⟩ rfl
    · intro haccepts
      refine OutputPlugin.truthful_of_success fun _ => ?_
      refine ⟨payloads.map (DruidOutputPlugin.toRecord topic msg), ?_, accepted_druid hsent haccepts⟩
      simp [druid, hpayloads, Except.toOption]

/-- The answers on which a plugin is to be believed. -/
def OutputArgs.Reliable : (args : OutputArgs) → List (Event args.plugin.Answer) → Prop
  | druid json topic, t => ∀ e ∈ t, (CommandService.druid json topic).Accepts e.1 e.2
  | _, _ => True

/-- **A resolution is the truth about the records, except for a success of Druid after a rejected
send.** -/
theorem truthful_iff {args : OutputArgs} {t : List (Event args.plugin.Answer)}
    (h : Returns (args.plugin.handleMessage msg) t r) : args.plugin.Truthful msg t r ↔ args.Reliable t := by
  cases args with
  | postgres json => exact iff_of_true (truthful_postgres h) trivial
  | druid json topic => exact truthful_druid_iff h
  | victoriaMetrics json => exact iff_of_true (truthful_victoriaMetrics h) trivial

/-! ### Two entries -/

def sampleMessages : DruidOutputPlugin.Json where
  messages _ := .ok [⟨.object [("a", .null)], 5⟩, ⟨.object [("a", .bool true)], 6⟩]

/-- A record of an entry of the sample message. -/
def sampleRecord (fields : Value) (ts : UInt64) : DruidOutputPlugin.FutureRecord :=
  DruidOutputPlugin.toRecord "druid" sampleInsert ⟨fields, ts, 0, 0⟩

def sampleRecords : List DruidOutputPlugin.FutureRecord :=
  [sampleRecord (.object [("a", .null)]) 5, sampleRecord (.object [("a", .bool true)]) 6]

/-- The sends of the records, with their answers. -/
def sampleSends (answer : DruidOutputPlugin.FutureRecord → Except String Unit) :
    List (Event DruidOutputPlugin.Answer) :=
  sampleRecords.map fun record => ⟨.send record, answer record⟩

theorem returns_sampleMessages (answer : DruidOutputPlugin.FutureRecord → Except String Unit) :
    Returns ((OutputArgs.druid sampleMessages "druid").plugin.handleMessage sampleInsert)
      (sampleSends answer) .success := by
  obtain ⟨results, hsent⟩ := DruidOutputPlugin.exists_returns_sendAll answer sampleRecords
  exact returns_bind.mpr ⟨results, _, [], (List.append_nil _).symm, hsent, .refl _⟩

/-- Both records are accepted. -/
theorem truthful_sampleMessages : (OutputArgs.druid sampleMessages "druid").plugin.Truthful
    sampleInsert (sampleSends fun _ => .ok ()) .success :=
  (truthful_iff (returns_sampleMessages _)).mpr (List.forall_mem_map.mpr fun _ _ => rfl)

/-- Only the first record is accepted, and the resolution is a success. -/
theorem success_of_rejected : ¬ ∀ t r,
    Returns ((OutputArgs.druid sampleMessages "druid").plugin.handleMessage sampleInsert) t r →
      (OutputArgs.druid sampleMessages "druid").plugin.Truthful sampleInsert t r := by
  intro h
  have hreturns := returns_sampleMessages fun record =>
    if record.payload.ts = 5 then .ok () else .error "Local: Message timed out"
  refine (h _ _ hreturns).rejected ⟨_, List.mem_cons_of_mem _ List.mem_cons_self, ?_⟩ rfl
  intro haccepts
  cases haccepts

end CommonDataLayer.CommandService
