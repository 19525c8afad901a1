import CommonDataLayer.Api.SchemaRecords
import CommonDataLayer.Foundations.Interference
import CommonDataLayer.SchemaRegistry.ConcurrentVersions

/-! # The definitions of a schema, while it gets new versions

The field `definitions` of a schema asks for the versions first, then for each of them by the
requirement `=version`. Between these calls others may change the registry.

`definitions_snapshot`: whatever the others do, the field is the definitions that were accepted until
the call for the versions was answered, each as it was accepted. None is missing, and none appears
twice. The calls themselves do not fail.
-/
namespace CommonDataLayer.Api.Registry
open Interaction Relation SchemaRegistry PropertyGraph TransitionSystem
open SchemaRegistry renaming Accepted → AcceptedVersion
set_option autoImplicit false

/-- What the documentation of the crates says about a version behind `=`, and about documents. -/
structure ExactRequirements (crates : RpcCrates) (json : Value → String) : Prop where
  parseUuid (id : Uuid) : crates.parseUuid id.toText = .ok id
  exact (version : Version) : crates.parseVersion (crates.showVersion version) = .ok version →
    ∃ req, crates.parseVersionReq ("=" ++ crates.showVersion version) = .ok req ∧
      ∀ other, req.accepts other = (compare other version == .eq)
  serializeJson (document : Value) : crates.serializeJson document = .ok (json document)

/-- One operation of another request. -/
def Changes (crates : Crates) (broker : Broker) (s s' : Registered) : Prop :=
  ∃ op : SchemaRegistry.Operation, op.ReadsBack crates ∧ Registers crates broker s op s'

/-- One call of the field, which reaches the registry; what is accepted stays as it is, since no call of it
is a request to write. -/
def Serves (broker : Broker) (crates : RpcCrates) (maps : MapOrder) (call : Call) (s : Registered)
    (answer : Answer call) (s' : Registered) : Prop :=
  ∃ w w' : World, w.graph = s.graph ∧ serve broker crates maps call w = (answer, w') ∧
    s' = { s with graph := w'.graph }

def definitionOf (crates : Crates) (json : Value → String) (accepted : AcceptedVersion) : Definition where
  definition := json accepted.definition
  version := crates.showVersion accepted.version

/-- The history is kept, in versions that are read as they were written. -/
structure Sound (crates : Crates) (s : Registered) : Prop where
  kept : Kept crates s
  readable : ∀ a ∈ s.accepted, crates.parseVersion (crates.showVersion a.version) = .ok a.version

section Writes
variable {crates : Crates} {broker : Broker} {s s' : Registered}

theorem sound_initially : Sound crates initially where
  kept := kept_initially
  readable := List.forall_mem_nil _

theorem Sound.changes (h : Sound crates s) (hchanges : Changes crates broker s s') : Sound crates s' := by
  obtain ⟨op, hversion, hregisters⟩ := hchanges
  refine ⟨kept_step s op s' h.kept hregisters hversion, ?_⟩
  obtain ⟨w, -, hfresh, -, haccepted⟩ := hregisters
  rw [haccepted]
  refine List.forall_mem_append.mpr ⟨h.readable, ?_⟩
  rcases @accepts_cases crates broker w op hfresh with ⟨hnone, -⟩ | ⟨a, hone, -, hreads⟩
  · rw [hnone]
    exact List.forall_mem_nil _
  · rw [hone]
    exact List.forall_mem_singleton.mpr (hreads hversion)

theorem Changes.accepted (h : Changes crates broker s s') : s.accepted <+: s'.accepted := by
  obtain ⟨op, -, w, -, -, -, haccepted⟩ := h
  exact ⟨_, haccepted.symm⟩

theorem Sound.reaches (h : Sound crates s) (hreaches : ReflTransGen (Changes crates broker) s s') :
    Sound crates s' ∧ s.accepted <+: s'.accepted := by
  induction hreaches with
  | refl => exact ⟨h, List.prefix_rfl⟩
  | tail _ hstep ih => exact ⟨ih.1.changes hstep, ih.2.trans hstep.accepted⟩

end Writes

section Reads
variable {broker : Broker} {crates : RpcCrates} {maps : MapOrder} {json : Value → String}
  {s s' : Registered} {id : Uuid} {α : Type}

theorem interleaved_registry {x : Program Answer (Except Status α)} {r : Except FieldError α}
    (h : Interleaved (Changes crates.toCrates broker) (Serves broker crates maps) (registry x).run s r s') :
    ∃ answer mid, Interleaved (Changes crates.toCrates broker) (Serves broker crates maps) x s answer mid ∧
      ReflTransGen (Changes crates.toCrates broker) mid s' ∧ r = answer.mapError refusal := by
  obtain ⟨answer, mid, hx, hrest⟩ := interleaved_bind h
  obtain ⟨rfl, hlater⟩ := interleaved_ret hrest
  exact ⟨answer, mid, hx, hlater, rfl⟩

/-- The answer to the first question. -/
theorem run_versions (hcrates : ExactRequirements crates json) (hsound : Sound crates.toCrates s)
    {w : World} (hw : w.graph = s.graph) : ∃ found : List AcceptedVersion, found.Perm (s.history id) ∧
      SchemaRegistry.run broker (SchemaRegistryImpl.getSchemaVersions crates id.toText) w =
        (.ok (found.map fun a => crates.showVersion a.version), w) := by
  obtain ⟨found, hfound, hmem⟩ := (hsound.kept.history id).versions
  have hdistinct : found.Nodup := (versions_distinct hfound).imp fun hne heq => hne (congrArg Prod.snd heq)
  have hhistory : ((s.history id).map fun a => (a.version, a.definitionId)).Nodup :=
    (hsound.kept.history id).increasing.imp fun hlt heq => by
      rw [heq, Std.ReflOrd.compare_self] at hlt
      cases hlt
  have hcomp : Relation.Comp (· = List.map (fun a : AcceptedVersion => (a.version, a.definitionId)) ·) List.Perm
      found (s.history id) := by
    rw [List.eq_map_comp_perm]
    exact (List.perm_ext_iff_of_nodup hdistinct hhistory).mpr hmem
  obtain ⟨accepted, rfl, haccepted⟩ := hcomp
  refine ⟨accepted, haccepted, (run_read (hcrates.parseUuid id) (run_getSchemaVersions w id)).trans ?_⟩
  rw [hw, hfound]
  show (Except.ok ((accepted.map _).map _), w) = _
  rw [List.map_map]
  rfl

theorem getLast_filter_exact {history : List AcceptedVersion}
    (hincreasing : history.Pairwise fun a b => compare a.version b.version = .lt) {a : AcceptedVersion}
    (ha : a ∈ history) :
    (history.filter fun b => compare b.version a.version == .eq).getLast? = some a := by
  have hne : history.Pairwise fun a b => compare a.version b.version ≠ .eq :=
    hincreasing.imp fun hlt => hlt ▸ nofun
  have : Std.Symm fun a b : AcceptedVersion => compare a.version b.version ≠ .eq :=
    ⟨fun x y hxy hyx => hxy (by rw [Std.OrientedOrd.eq_swap, hyx]; rfl)⟩
  cases hlast : (history.filter fun b => compare b.version a.version == .eq).getLast? with
  | none =>
    rw [List.getLast?_eq_none_iff, List.filter_eq_nil_iff] at hlast
    exact absurd (beq_iff_eq.mpr Std.ReflOrd.compare_self) (hlast a ha)
  | some b =>
    obtain ⟨hb, heq⟩ := List.mem_filter.mp (List.mem_of_getLast? hlast)
    by_contra hother
    exact hne.forall hb ha (fun hsame => hother (congrArg some hsame)) (beq_iff_eq.mp heq)

/-- The answer to a later question, for a version of the schema. -/
theorem run_exact (hcrates : ExactRequirements crates json) (hsound : Sound crates.toCrates s)
    {a : AcceptedVersion} (ha : a ∈ s.history id) {w : World} (hw : w.graph = s.graph) :
    SchemaRegistry.run broker (SchemaRegistryImpl.getSchema crates id.toText
      ("=" ++ crates.showVersion a.version)) w =
        (.ok ⟨crates.showVersion a.version, json a.definition⟩, w) := by
  obtain ⟨req, hreq, haccepts⟩ := hcrates.exact a.version (hsound.readable a (List.mem_filter.mp ha).1)
  have hresolves : Resolves crates.toCrates broker s id := hsound.kept.resolves id
  have hlatest := hresolves.definition w req hw
  rw [run_getSchemaDefinition] at hlatest
  simp only [haccepts, getLast_filter_exact hresolves.increasing ha] at hlatest
  have hdefinition : SchemaRegistry.run broker (SchemaRegistryImpl.db crates.toCrates
      (getSchemaDefinition crates.toCrates ⟨id, req⟩)) w = (.ok ⟨a.version, a.definition⟩, w) := by
    rw [run_db_eq_ok, run_getSchemaDefinition, hlatest]
  unfold SchemaRegistryImpl.getSchema
  rw [parseUuid_eq_ok (hcrates.parseUuid id), parseVersionReq, hreq]
  refine (SchemaRegistry.run_bind_ok hdefinition _).trans ?_
  rw [serializeJson, hcrates.serializeJson]
  rfl

/-- A question leaves the registry as it is. -/
theorem serves_read {call : Call} {answer : Answer call} {P : Answer call → Prop}
    (hread : ∀ w : World, w.graph = s.graph → ∃ a, serve broker crates maps call w = (a, w) ∧ P a)
    (h : Serves broker crates maps call s answer s') : s' = s ∧ P answer := by
  obtain ⟨w, w', hw, hserve, rfl⟩ := h
  obtain ⟨a, ha, hp⟩ := hread w hw
  obtain ⟨rfl, rfl⟩ := Prod.mk.inj (hserve.symm.trans ha)
  exact ⟨by rw [hw], hp⟩

theorem interleaved_definitionsOf (hcrates : ExactRequirements crates json) {found : List AcceptedVersion}
    {result : Except FieldError (List Definition)} (hsound : Sound crates.toCrates s)
    (hfound : ∀ a ∈ found, a ∈ s.history id)
    (h : Interleaved (Changes crates.toCrates broker) (Serves broker crates maps)
      (definitionsOf id.toText (found.map fun a => crates.showVersion a.version)).run s result s') :
    result = .ok (found.map (definitionOf crates.toCrates json)) ∧
      ReflTransGen (Changes crates.toCrates broker) s s' := by
  induction found generalizing s s' result with
  | nil => exact interleaved_ret h
  | cons a found ih =>
    rw [List.forall_mem_cons] at hfound
    have hcall (r : Except FieldError Message.SchemaDefinition) (mid : Registered)
        (h : Interleaved (Changes crates.toCrates broker) (Serves broker crates maps) (registry
          (Program.perform (Call.getSchema id.toText ("=" ++ crates.showVersion a.version)))).run s r mid) :
        r = .ok ⟨crates.showVersion a.version, json a.definition⟩ ∧
          ReflTransGen (Changes crates.toCrates broker) s mid := by
      obtain ⟨answer, mid', hperform, hlater, rfl⟩ := interleaved_registry h
      obtain ⟨before, after, hbefore, hserves, hafter⟩ := interleaved_perform hperform
      obtain ⟨hsound', haccepted⟩ := hsound.reaches hbefore
      have ha : a ∈ before.history id := (haccepted.filter _).subset hfound.1
      have hread (w : World) (hw : w.graph = before.graph) : ∃ answer, serve broker crates maps
          (.getSchema id.toText ("=" ++ crates.showVersion a.version)) w = (answer, w) ∧
            answer = .ok ⟨crates.showVersion a.version, json a.definition⟩ :=
        ⟨_, run_exact hcrates hsound' ha hw, rfl⟩
      obtain ⟨rfl, rfl⟩ := serves_read hread hserves
      exact ⟨rfl, hbefore.trans (hafter.trans hlater)⟩
    obtain ⟨e, rfl, herror⟩ | ⟨read, mid, hread, hrest⟩ := interleaved_exceptT_bind h
    · cases (hcall _ _ herror).1
    · obtain ⟨hok, hreaches⟩ := hcall _ _ hread
      cases hok
      obtain ⟨hsound', haccepted⟩ := hsound.reaches hreaches
      have hlater (b : AcceptedVersion) (hb : b ∈ found) : b ∈ mid.history id :=
        (haccepted.filter _).subset (hfound.2 b hb)
      obtain ⟨e, rfl, herror⟩ | ⟨definitions, mid', hdefinitions, hreturned⟩ :=
        interleaved_exceptT_bind hrest
      · cases (ih hsound' hlater herror).1
      · obtain ⟨hok, hreaches'⟩ := ih hsound' hlater hdefinitions
        cases hok
        obtain ⟨rfl, hend⟩ := interleaved_ret hreturned
        exact ⟨rfl, hreaches.trans (hreaches'.trans hend)⟩

/-- **The field is the definitions that were accepted when its question for the versions was answered**,
whatever is accepted before the others. -/
theorem definitions_snapshot (hcrates : ExactRequirements crates json)
    (hstart : ReflTransGen (Changes crates.toCrates broker) initially s)
    {moments : List (Moment Registered Answer)} {result : Except FieldError (List Definition)}
    (h : Recorded (Changes crates.toCrates broker) (Serves broker crates maps) (definitions id).run s moments
      result s') : ∃ connected mid texts later, ∃ found : List AcceptedVersion,
        moments = ⟨.connect, connected, .ok ()⟩ :: ⟨.getSchemaVersions id.toText, mid, .ok texts⟩ :: later ∧
          ReflTransGen (Changes crates.toCrates broker) s mid ∧
          ReflTransGen (Changes crates.toCrates broker) mid s' ∧ found.Perm (mid.history id) ∧
            result = .ok (found.map (definitionOf crates.toCrates json)) := by
  have hsound := (sound_initially.reaches hstart).1
  obtain ⟨before, answer, after, later, rfl, hbefore, ⟨w, w', hw, hserve, rfl⟩, hquery⟩ := recorded_call h
  obtain ⟨rfl, rfl⟩ := Prod.mk.inj hserve
  rw [hw] at hquery
  obtain ⟨mid, answer, after, later, rfl, hmid, hserves, hrest⟩ := recorded_call hquery
  have hreaches := hbefore.trans hmid
  have hsound' := (hsound.reaches hreaches).1
  have hread (w : World) (hw : w.graph = mid.graph) : ∃ answer,
      serve broker crates maps (.getSchemaVersions id.toText) w = (answer, w) ∧
        ∃ found : List AcceptedVersion, found.Perm (mid.history id) ∧
          answer = .ok (found.map fun a => crates.showVersion a.version) := by
    obtain ⟨found, hfound, hrun⟩ := run_versions hcrates hsound' hw
    exact ⟨_, hrun, found, hfound, rfl⟩
  obtain ⟨rfl, found, hfound, rfl⟩ := serves_read hread hserves
  obtain ⟨hresult, hend⟩ := interleaved_definitionsOf hcrates hsound' (fun a ha => hfound.subset ha)
    hrest.interleaved
  exact ⟨before, after, _, later, found, rfl, hreaches, hend, hfound, hresult⟩

end Reads

/-! ## A schema that gets a new version meanwhile -/

def sampleExactCrates : RpcCrates :=
  { sampleRpcCrates with
    parseVersionReq := fun text =>
      if text = "=1.0.0" then .ok ⟨text, fun other => compare other (.new 1 0 0) == .eq⟩
      else if text = "=2.0.0" then .ok ⟨text, fun other => compare other (.new 2 0 0) == .eq⟩
      else .error "encountered unexpected character" }

theorem exactRequirements_sample : ExactRequirements sampleExactCrates fun _ => "\x7b\x7d" where
  parseUuid := parseUuid_sampleRpc
  exact version h := by
    have h : (if sampleCrates.showVersion version = "1.0.0" then Except.ok (Version.new 1 0 0)
        else if sampleCrates.showVersion version = "2.0.0" then .ok (.new 2 0 0)
        else .error "Error parsing major identifier") = .ok version := h
    have htext (text : String) (hshow : sampleCrates.showVersion version = text) :
        "=" ++ sampleExactCrates.showVersion version = "=" ++ text := congrArg ("=" ++ ·) hshow
    split at h
    · cases h
      exact ⟨_, rfl, fun _ => rfl⟩
    · split at h
      · cases h
        exact ⟨_, rfl, fun _ => rfl⟩
      · cases h
  serializeJson _ := rfl

def sampleDefined : Registered where
  graph := withSchema sampleExactCrates.toCrates .empty 1 2 sampleNewSchema.split.1 ⟨sampleNewSchema.definition⟩
  accepted := accepts sampleExactCrates.toCrates sampleBroker (sampleWorld .empty 2 4)
    (.addSchema sampleNewSchema (some 1))

theorem changes_sample : Changes sampleExactCrates.toCrates sampleBroker initially sampleDefined := by
  have hfresh : Fresh (sampleWorld .empty 2 4).supply (Graph.empty : Graph)
      (SchemaRegistry.Operation.addSchema sampleNewSchema (some 1)).given :=
    ⟨by simp [sampleWorld], by decide, by decide⟩
  exact ⟨.addSchema sampleNewSchema (some 1), readsBack_sample, sampleWorld .empty 2 4, rfl, hfresh,
    run_perform _ hfresh, rfl⟩

def sampleAccepted : AcceptedVersion :=
  { schemaId := 1, version := .new 1 0 0, definitionId := 2, definition := .object [] }

theorem history_sampleDefined : sampleDefined.history 1 = [sampleAccepted] := rfl

theorem sound_sampleDefined : Sound sampleExactCrates.toCrates sampleDefined :=
  sound_initially.changes changes_sample

def sampleUpgrade : SchemaRegistry.Operation :=
  .addNewVersionOfSchema 1 ⟨.new 2 0 0, .object [("title", .string "order")]⟩

def sampleUpgraded : Registered where
  graph := (SchemaRegistry.run sampleBroker (sampleUpgrade.perform sampleExactCrates.toCrates)
    (nextWorld sampleDefined.graph)).2.graph
  accepted := sampleDefined.accepted ++
    accepts sampleExactCrates.toCrates sampleBroker (nextWorld sampleDefined.graph) sampleUpgrade

theorem changes_upgrade : Changes sampleExactCrates.toCrates sampleBroker sampleDefined sampleUpgraded :=
  ⟨sampleUpgrade, readsBack_newer, nextWorld sampleDefined.graph, rfl, by decide +kernel, rfl, rfl⟩

theorem history_sampleUpgraded : sampleUpgraded.history 1 =
    [sampleAccepted, ⟨1, .new 2 0 0, 102, .object [("title", .string "order")]⟩] := rfl

theorem showVersion_sample : sampleExactCrates.showVersion (.new 1 0 0) = "1.0.0" := by decide

theorem serves_versions_sample : Serves sampleBroker sampleExactCrates sampleMaps
    (.getSchemaVersions (Uuid.toText 1)) sampleDefined (.ok ["1.0.0"]) sampleDefined := by
  have hw : (sampleWorld sampleDefined.graph 5 6).graph = sampleDefined.graph := rfl
  obtain ⟨found, hfound, hrun⟩ : ∃ found : List AcceptedVersion, found.Perm (sampleDefined.history 1) ∧
    SchemaRegistry.run sampleBroker _ _ = _ := run_versions exactRequirements_sample sound_sampleDefined hw
  rw [history_sampleDefined, List.perm_singleton] at hfound
  rw [hfound, List.map_singleton, sampleAccepted, showVersion_sample] at hrun
  exact ⟨_, _, hw, hrun, rfl⟩

theorem serves_definition_sample : Serves sampleBroker sampleExactCrates sampleMaps
    (.getSchema (Uuid.toText 1) "=1.0.0") sampleUpgraded (.ok ⟨"1.0.0", "\x7b\x7d"⟩) sampleUpgraded := by
  have hw : (sampleWorld sampleUpgraded.graph 5 6).graph = sampleUpgraded.graph := rfl
  have ha : sampleAccepted ∈ sampleUpgraded.history 1 := history_sampleUpgraded ▸ List.mem_cons_self
  have hrun : SchemaRegistry.run sampleBroker _ _ = _ := run_exact exactRequirements_sample
    (sound_sampleDefined.changes changes_upgrade) ha hw
  rw [sampleAccepted, showVersion_sample] at hrun
  exact ⟨_, _, hw, hrun, rfl⟩

/-- The schema is added after the first call, and gets its second version after the next one. -/
def sampleMoments : List (Moment Registered Answer) :=
  [⟨.connect, initially, .ok ()⟩, ⟨.getSchemaVersions (Uuid.toText 1), sampleDefined, .ok ["1.0.0"]⟩,
    ⟨.getSchema (Uuid.toText 1) "=1.0.0", sampleUpgraded, .ok ⟨"1.0.0", "\x7b\x7d"⟩⟩]

theorem recorded_sample : Recorded (Changes sampleExactCrates.toCrates sampleBroker)
    (Serves sampleBroker sampleExactCrates sampleMaps) (definitions 1).run initially sampleMoments
    (.ok [⟨"\x7b\x7d", "1.0.0"⟩]) sampleUpgraded := by
  have hconnect : Serves sampleBroker sampleExactCrates sampleMaps .connect initially (.ok ()) initially :=
    ⟨sampleWorld .empty 2 4, _, rfl, rfl, rfl⟩
  exact .call hconnect (.other changes_sample (.call serves_versions_sample
    (.other changes_upgrade (.call serves_definition_sample .ret))))

theorem definitions_snapshot_sample : ∃ connected mid texts later, ∃ found : List AcceptedVersion,
    sampleMoments = ⟨.connect, connected, .ok ()⟩ ::
        ⟨.getSchemaVersions (Uuid.toText 1), mid, .ok texts⟩ :: later ∧
      ReflTransGen (Changes sampleExactCrates.toCrates sampleBroker) initially mid ∧
      ReflTransGen (Changes sampleExactCrates.toCrates sampleBroker) mid sampleUpgraded ∧
        found.Perm (mid.history 1) ∧
          (Except.ok [⟨"\x7b\x7d", "1.0.0"⟩] : Except FieldError (List Definition)) =
            .ok (found.map (definitionOf sampleExactCrates.toCrates fun _ => "\x7b\x7d")) :=
  definitions_snapshot exactRequirements_sample .refl recorded_sample

end CommonDataLayer.Api.Registry
