import CommonDataLayer.Api.Objects

/-! # What the queries for objects return

* `finds_object`, `observed_objects`, `observed_schemaObjects`: what a query returns are the newest
  documents at one moment between its beginning and its end.
* `object_timeseries`: the object of a schema of time series is never found.
-/
namespace CommonDataLayer.Api.Objects
open Interaction Relation Postgres
open SchemaRegistry (Lists SchemaType)
open QueryRouter (SchemaInfo)
open QueryRouter.Handler (Bytes Entries HttpRequest Rejection)
open QueryService (Tables Replies Selects Tells newestOf newestWith)
set_option autoImplicit false

/-! ## What the router gets -/

section Router
variable {cluster : Cluster} {addr : String} {tables tables' : Tables}

theorem observed_getSchemaInfo {schemaId : Uuid} {r : Except QueryRouter.Handler.Error SchemaInfo}
    (h : Interleaved cluster.Changes cluster.Serves (QueryRouter.Handler.getSchemaInfo schemaId).run
      tables r tables') :
    Observed cluster.Changes cluster.failing (fun _ info => info = cluster.schemaInfo schemaId)
      tables r tables' := by
  obtain ⟨before, answer, after, hbefore, ⟨rfl, hreplies⟩, hafter, rfl⟩ := interleaved_perform_ret h
  exact .head hbefore ((Replies.observed hreplies).mapError _ |>.tail hafter)

/-- A service that was asked returns the entries of what its handler returned. -/
theorem observed_responds {handler : QueryService.Task QueryService.ValueMap}
    {P : Tables → QueryService.ValueMap → Prop} {answer : Except QueryService.Status Entries}
    (hhandler : ∀ response, Interleaved cluster.Changes (Selects cluster.failing addr) handler.run tables
      response tables' → Observed cluster.Changes cluster.failing P tables response tables')
    (h : cluster.Responds addr handler tables answer tables') :
    Observed cluster.Changes cluster.failing (fun mid entries => ∃ values, Carries entries values ∧ P mid values)
      tables answer tables' := by
  obtain ⟨response, hresponse, hanswer⟩ := h
  have hobserved := hhandler response hresponse
  obtain ⟨values, mid, rfl, hbefore, hP, hafter⟩ | ⟨hfailing, ⟨e, rfl⟩, hreaches⟩ := hobserved
  · obtain ⟨e, herror, -⟩ | ⟨values, hok, ⟨entries, rfl, hcarries⟩ | ⟨hfailing, he⟩⟩ := hanswer
    · cases herror
    · cases hok
      exact .inl ⟨entries, mid, rfl, hbefore, ⟨values, hcarries, hP⟩, hafter⟩
    · exact .inr ⟨hfailing, he, hbefore.trans hafter⟩
  · obtain ⟨e', -, rfl⟩ | ⟨values, hok, -⟩ := hanswer
    · exact .inr ⟨hfailing, ⟨_, rfl⟩, hreaches⟩
    · cases hok

/-- A function of `rpc` makes its call after it has connected. -/
theorem observed_query {α : Type} {service : QueryRouter.Handler.Service}
    {call : Program QueryRouter.Handler.Answer (Except QueryService.Status α)} {P : Tables → α → Prop}
    {r : Except QueryRouter.Handler.Error α}
    (hcall : ∀ answer before after, Interleaved cluster.Changes cluster.Serves call before answer after →
      Observed cluster.Changes cluster.failing P before answer after)
    (h : Interleaved cluster.Changes cluster.Serves (QueryRouter.Handler.query service addr call).run
      tables r tables') : Observed cluster.Changes cluster.failing P tables r tables' := by
  refine Observed.bind (P := fun _ _ => True) h (fun first mid hfirst => ?_)
    fun _ seen mid _ _ hmid hrest => .head hmid ?_
  · obtain ⟨before, answer, after, hbefore, ⟨rfl, hreplies⟩, hafter, rfl⟩ := interleaved_perform_ret hfirst
    exact .head hbefore ((Replies.observed hreplies).mapError _ |>.tail hafter)
  · obtain ⟨answer, mid', hanswer, hrest⟩ := interleaved_bind hrest
    obtain ⟨rfl, hlater⟩ := interleaved_ret hrest
    exact ((hcall _ _ _ hanswer).mapError _).tail hlater

theorem observed_queryMultiple {texts : List String} {ids : List Uuid}
    (hids : texts.mapM cluster.formats.parseUuid = .ok ids) {answer : Except QueryService.Status Entries}
    (h : Interleaved cluster.Changes cluster.Serves
      (Program.perform (QueryRouter.Handler.Call.queryMultiple addr texts)) tables answer tables') :
    Observed cluster.Changes cluster.failing (fun mid entries => ∃ values, Carries entries values ∧
      Tells cluster.formats (newestOf (mid addr) ids) values) tables answer tables' := by
  obtain ⟨before, after, hbefore, hresponds, hafter⟩ := interleaved_perform h
  exact .head hbefore ((observed_responds (fun _ => QueryService.observed_queryMultiple hids) hresponds).tail
    hafter)

theorem observed_queryBySchema {text : String} {schemaId : Uuid}
    (hid : cluster.formats.parseUuid text = .ok schemaId) {answer : Except QueryService.Status Entries}
    (h : Interleaved cluster.Changes cluster.Serves
      (Program.perform (QueryRouter.Handler.Call.queryBySchema addr text)) tables answer tables') :
    Observed cluster.Changes cluster.failing (fun mid entries => ∃ values, Carries entries values ∧
      Tells cluster.formats (newestWith (mid addr) schemaId) values) tables answer tables' := by
  obtain ⟨before, after, hbefore, hresponds, hafter⟩ := interleaved_perform h
  exact .head hbefore ((observed_responds (fun _ => QueryService.observed_queryBySchema hid) hresponds).tail
    hafter)

/-! ## Maps of documents -/

/-- Elements that are images, with what they are images of. -/
theorem exists_map_eq {α β : Type} {f : α → β} {P : α → Prop} {l : List β}
    (h : ∀ b ∈ l, ∃ a, P a ∧ f a = b) : ∃ l' : List α, l'.map f = l ∧ ∀ a ∈ l', P a := by
  induction l with
  | nil => exact ⟨[], rfl, List.forall_mem_nil _⟩
  | cons b l ih =>
    rw [List.forall_mem_cons] at h
    obtain ⟨a, ha, rfl⟩ := h.1
    obtain ⟨l', rfl, hl'⟩ := ih h.2
    exact ⟨a :: l', rfl, List.forall_mem_cons.mpr ⟨ha, hl'⟩⟩

/-- The entries of a map that tells of rows are the documents of these rows. -/
theorem Carries.documents {entries : Entries} {values : QueryService.ValueMap} {shown : Uuid → Option Row}
    (h : Carries entries values) (htells : Tells cluster.formats shown values) :
    ∃ documents : List (Uuid × Value), Lists documents (fun id => (shown id).map Row.payload) ∧
      entries = documents.map fun entry => (entry.1.toText, cluster.formats.toBytes entry.2) := by
  have hentry : ∀ entry ∈ entries, ∃ document : Uuid × Value,
      (shown document.1).map Row.payload = some document.2 ∧
      (document.1.toText, cluster.formats.toBytes document.2) = entry := by
    rintro ⟨key, bytes⟩ hmem
    obtain ⟨id, row, rfl, hrow, rfl⟩ := (htells key bytes).mp ((h.mem key bytes).mp hmem)
    exact ⟨(id, row.payload), by rw [hrow]; rfl, rfl⟩
  obtain ⟨documents, rfl, hdocuments⟩ := exists_map_eq hentry
  refine ⟨documents, ⟨?_, fun id v => ⟨fun hmem => hdocuments (id, v) hmem, fun hshown => ?_⟩⟩, rfl⟩
  · have hnodup := h.nodup
    rw [List.map_map] at hnodup
    refine List.Nodup.of_map Uuid.toText ?_
    rw [List.map_map]
    exact hnodup
  · obtain ⟨row, hrow, rfl⟩ := Option.map_eq_some_iff.mp hshown
    have hvalue : values id.toText = some (cluster.formats.toBytes row.payload) :=
      (htells _ _).mpr ⟨id, row, rfl, hrow, rfl⟩
    obtain ⟨⟨other, v⟩, hmem, heq⟩ := List.mem_map.mp ((h.mem _ _).mpr hvalue)
    obtain rfl : other = id := Uuid.toText_injective (Prod.mk.inj heq).1
    have hother := hdocuments _ hmem
    rw [hrow] at hother
    rwa [Option.some.inj hother]

theorem byteMapToJsonMap_documents {documents : List (Uuid × Value)}
    (h : ∀ entry ∈ documents, cluster.Readable entry.2) :
    QueryRouter.Handler.byteMapToJsonMap cluster.crates
        (documents.map fun entry => (entry.1.toText, cluster.formats.toBytes entry.2)) =
      .ok (documents.map fun entry => (entry.1.toText, entry.2)) := by
  induction documents with
  | nil => rfl
  | cons entry documents ih =>
    rw [List.forall_mem_cons] at h
    have hrest := ih h.2
    rw [QueryRouter.Handler.byteMapToJsonMap] at hrest ⊢
    rw [List.map_cons, List.mapM_cons, hrest, h.1]
    rfl

theorem jsonReply_documents (hdocumented : cluster.Documented) {entries : Entries}
    {values : QueryService.ValueMap} {shown : Uuid → Option Row} (h : Carries entries values)
    (htells : Tells cluster.formats shown values)
    (hreadable : ∀ id row, shown id = some row → cluster.Readable row.payload) :
    ∃ bytes documents, (QueryRouter.Handler.jsonReply cluster.crates entries).run = .ret (.ok bytes) ∧
      cluster.json.readMap bytes = .ok documents ∧
      Lists documents (fun id => (shown id).map Row.payload) := by
  obtain ⟨documents, hlists, rfl⟩ := h.documents htells
  have hdocuments : ∀ entry ∈ documents, cluster.Readable entry.2 := by
    rintro ⟨id, v⟩ hmem
    obtain ⟨row, hrow, rfl⟩ := Option.map_eq_some_iff.mp ((hlists.mem id v).mp hmem)
    exact hreadable id row hrow
  obtain ⟨bytes, read, hbytes, hread, hperm⟩ := hdocumented.readMap documents hlists.nodup hdocuments
  refine ⟨bytes, read, ?_, hread, Registry.lists_perm hlists hperm⟩
  rw [QueryRouter.Handler.jsonReply, byteMapToJsonMap_documents hdocuments]
  show Program.ret ((cluster.crates.toVec _).mapError _) = _
  rw [hbytes]
  rfl

theorem Carries.lookup {entries : Entries} {values : QueryService.ValueMap} (h : Carries entries values)
    (key : String) : entries.lookup key = values key := by
  refine Option.ext fun value => ?_
  rw [← h.mem, List.lookup_eq_some_iff]
  constructor
  · rintro ⟨before, after, rfl, -⟩
    simp
  · intro hmem
    obtain ⟨before, after, rfl⟩ := List.append_of_mem hmem
    refine ⟨before, after, rfl, fun entry hentry => ?_⟩
    have hnodup := h.nodup
    rw [List.map_append, List.nodup_append] at hnodup
    simpa using (hnodup.2.2 _ (List.mem_map_of_mem hentry) key (by simp)).symm

/-! ## What the handlers return -/

theorem mem_of_newestOf {table : DataTable} {ids : List Uuid} {id : Uuid} {row : Row}
    (h : newestOf table ids id = some row) : row ∈ table.rows :=
  (DataTable.newest_eq_some.mp (QueryService.newestOf_eq_some.mp h).2).1.1

theorem mem_of_newestWith {table : DataTable} {schemaId id : Uuid} {row : Row}
    (h : newestWith table schemaId id = some row) : row ∈ table.rows :=
  (DataTable.newest_eq_some.mp (Option.filter_eq_some_iff.mp h).1).1.1

theorem mapM_parseUuid (hdocumented : cluster.Documented) (ids : List Uuid) :
    (ids.map Uuid.toText).mapM cluster.formats.parseUuid = .ok ids := by
  induction ids with
  | nil => rfl
  | cons id ids ih =>
    rw [List.map_cons, List.mapM_cons, hdocumented.serviceUuid, ih]
    rfl

theorem split_intercalate {sep : Char} {texts : List String} (hne : texts ≠ [])
    (hsep : ∀ text ∈ texts, sep ∉ text.toList) :
    QueryRouter.Handler.split sep ((String.singleton sep).intercalate texts) = texts := by
  rw [QueryRouter.Handler.split, String.toList_intercalate, String.toList_singleton,
    List.splitOn_intercalate _ (by simpa using hsep) (by simpa using hne), List.map_map]
  simp

theorem not_mem_toText {sep : Char} (hhyphen : sep ≠ '-') (hdigits : ∀ d < 16, Nat.digitChar d ≠ sep)
    (ids : List Uuid) : ∀ text ∈ ids.map Uuid.toText, sep ∉ text.toList :=
  List.forall_mem_map.mpr fun _ _ => Uuid.not_mem_toText hhyphen hdigits

theorem split_ids {ids : List Uuid} (hne : ids ≠ []) :
    QueryRouter.Handler.split ',' (",".intercalate (ids.map Uuid.toText)) = ids.map Uuid.toText :=
  split_intercalate (by simpa using hne) (not_mem_toText (by decide) (by decide) ids)

theorem mem_intercalate (sep : Char) {c : Char} {texts : List String}
    (h : c ∈ ((String.singleton sep).intercalate texts).toList) : c = sep ∨ ∃ text ∈ texts, c ∈ text.toList := by
  induction texts with
  | nil => simp at h
  | cons first rest ih =>
    cases rest with
    | nil => exact .inr ⟨first, List.mem_singleton_self _, by simpa using h⟩
    | cons second rest =>
      rw [String.intercalate_cons_cons, String.toList_append, String.toList_append, String.toList_singleton,
        List.mem_append, List.mem_append, List.mem_singleton] at h
      rcases h with (hfirst | heq) | hrest
      · exact .inr ⟨first, List.mem_cons_self, hfirst⟩
      · exact .inl heq
      · obtain heq | ⟨text, htext, hc⟩ := ih hrest
        · exact .inl heq
        · exact .inr ⟨text, List.mem_cons_of_mem _ htext, hc⟩

/-- The response body of a map handler, from the map of its service. -/
theorem observed_jsonReply (hdocumented : cluster.Documented) (shown : DataTable → Uuid → Option Row)
    {r : Except QueryRouter.Handler.Error Bytes}
    (hrows : ∀ table id row, shown table id = some row → row ∈ table.rows)
    (hstores : cluster.StoresReadable addr tables)
    {call : Program QueryRouter.Handler.Answer (Except QueryService.Status Entries)}
    (hcall : ∀ answer before after, Interleaved cluster.Changes cluster.Serves call before answer after →
      Observed cluster.Changes cluster.failing (fun mid entries => ∃ values, Carries entries values ∧
        Tells cluster.formats (shown (mid addr)) values) before answer after)
    (h : Interleaved cluster.Changes cluster.Serves (QueryRouter.Handler.query .documents addr call >>=
      QueryRouter.Handler.jsonReply cluster.crates).run tables r tables') :
    Observed cluster.Changes cluster.failing (fun mid bytes => ∃ documents,
      cluster.json.readMap bytes = .ok documents ∧
      Lists documents (fun id => (shown (mid addr) id).map Row.payload)) tables r tables' := by
  refine Observed.bind h (fun _ _ => observed_query hcall) fun entries seen mid hseen hentries hmid hrest => ?_
  obtain ⟨values, hcarries, htells⟩ := hentries
  obtain ⟨bytes, documents, hreply, hread, hlists⟩ := jsonReply_documents hdocumented hcarries htells
    fun id row hrow => hstores seen hseen row (hrows _ _ _ hrow)
  rw [hreply] at hrest
  obtain ⟨rfl, hlater⟩ := interleaved_ret hrest
  exact .inl ⟨bytes, seen, rfl, .refl, ⟨documents, hread, hlists⟩, hmid.trans hlater⟩

theorem Cluster.StoresReadable.later (h : cluster.StoresReadable addr tables)
    (hsteps : ReflTransGen cluster.Changes tables tables') : cluster.StoresReadable addr tables' :=
  fun later hlater => h later (hsteps.trans hlater)

/-- It is enough that what `serde_json` parses can be read back. -/
theorem Cluster.storesReadable {json : SerdeJson}
    (hchanges : ∀ tables tables', cluster.Changes tables tables' → Cluster.Stores json tables tables')
    (hreadable : ∀ text v, json.value text = .ok v → cluster.Readable v)
    (hstart : ∀ row ∈ (tables addr).rows, cluster.Readable row.payload) : cluster.StoresReadable addr tables := by
  intro later hlater
  induction hlater with
  | refl => exact hstart
  | @tail mid later _ step ih =>
    obtain ⟨service, msg, rfl⟩ := hchanges mid later step
    intro row hrow
    by_cases haddr : addr = service
    · subst haddr
      rw [Function.update_self] at hrow
      obtain hrow | hnew := CommandService.mem_store hrow
      · exact ih row hrow
      · rw [CommandService.PostgresOutputPlugin.rowOf] at hnew
        cases hvalue : json.value msg.data.get with
        | error e =>
          rw [hvalue] at hnew
          cases hnew
        | ok v =>
          rw [hvalue] at hnew
          cases hnew
          exact hreadable _ v hvalue
    · rw [Function.update_of_ne haddr] at hrow
      exact ih row hrow

theorem observed_multipleHandler (hdocumented : cluster.Documented)
    (hstores : cluster.StoresReadable addr tables) {schemaId : Uuid} {schemaType : SchemaType}
    (hinfo : cluster.schemaInfo schemaId = (addr, schemaType)) {objectIds : List Uuid}
    (hne : objectIds ≠ []) {r : Except QueryRouter.Handler.Error Bytes}
    (h : Interleaved cluster.Changes cluster.Serves (QueryRouter.Handler.queryMultiple cluster.crates
      (",".intercalate (objectIds.map Uuid.toText)) schemaId).run tables r tables') :
    Observed cluster.Changes cluster.failing (fun mid bytes => ∃ documents,
      cluster.json.readMap bytes = .ok documents ∧
      Lists documents (fun id => (newestOf (mid addr) objectIds id).map Row.payload)) tables r tables' := by
  rw [QueryRouter.Handler.queryMultiple, split_ids hne] at h
  refine Observed.bind h (fun _ _ => observed_getSchemaInfo) ?_
  rintro _ seen mid hseen rfl hmid hrest
  rw [hinfo] at hrest
  refine .head hmid (observed_jsonReply hdocumented (fun table => newestOf table objectIds)
    (fun _ _ _ => mem_of_newestOf)
    (hstores.later (hseen.trans hmid)) (fun _ _ _ => observed_queryMultiple (mapM_parseUuid hdocumented objectIds))
    hrest)

theorem observed_schemaHandler (hdocumented : cluster.Documented)
    (hstores : cluster.StoresReadable addr tables) {schemaId : Uuid}
    (hinfo : cluster.schemaInfo schemaId = (addr, .documentStorage))
    {r : Except QueryRouter.Handler.Error Bytes}
    (h : Interleaved cluster.Changes cluster.Serves
      (QueryRouter.Handler.queryBySchema cluster.crates schemaId).run tables r tables') :
    Observed cluster.Changes cluster.failing (fun mid bytes => ∃ documents,
      cluster.json.readMap bytes = .ok documents ∧
      Lists documents (fun id => (newestWith (mid addr) schemaId id).map Row.payload)) tables r tables' := by
  refine Observed.bind h (fun _ _ => observed_getSchemaInfo) ?_
  rintro _ seen mid hseen rfl hmid hrest
  rw [hinfo] at hrest
  refine .head hmid (observed_jsonReply hdocumented (fun table => newestWith table schemaId)
    (fun _ _ _ => mem_of_newestWith)
    (hstores.later (hseen.trans hmid))
    (fun _ _ _ => observed_queryBySchema (hdocumented.serviceUuid schemaId)) hrest)

/-- A value that was there at some moment, or a failure. -/
def Finds {α ε : Type} (cluster : Cluster) (found : Tables → Option α) (tables : Tables) (r : Except ε α)
    (tables' : Tables) : Prop :=
  (∃ mid, ReflTransGen cluster.Changes tables mid ∧ r.toOption = found mid ∧
    ReflTransGen cluster.Changes mid tables') ∨
  (cluster.failing ∧ (∃ e, r = .error e) ∧ ReflTransGen cluster.Changes tables tables')

theorem Finds.head {α ε : Type} {found : Tables → Option α} {mid : Tables} {r : Except ε α}
    (hsteps : ReflTransGen cluster.Changes tables mid) (h : Finds cluster found mid r tables') :
    Finds cluster found tables r tables' := by
  obtain ⟨m, hbefore, hr, hafter⟩ | ⟨hfailing, he, hreaches⟩ := h
  · exact .inl ⟨m, hsteps.trans hbefore, hr, hafter⟩
  · exact .inr ⟨hfailing, he, hsteps.trans hreaches⟩

theorem Finds.reaches {α ε : Type} {found : Tables → Option α} {r : Except ε α}
    (h : Finds cluster found tables r tables') : ReflTransGen cluster.Changes tables tables' := by
  obtain ⟨m, hbefore, -, hafter⟩ | ⟨-, -, hreaches⟩ := h
  · exact hbefore.trans hafter
  · exact hreaches

theorem finds_singleHandler (hdocumented : cluster.Documented) {objectId schemaId : Uuid}
    (hinfo : cluster.schemaInfo schemaId = (addr, .documentStorage)) {body : QueryRouter.Handler.Body}
    {r : Except QueryRouter.Handler.Error Bytes}
    (h : Interleaved cluster.Changes cluster.Serves
      (QueryRouter.Handler.querySingle objectId schemaId body).run tables r tables') :
    Finds cluster (fun mid => ((mid addr).newest objectId).map fun row => cluster.formats.toBytes row.payload)
      tables r tables' := by
  obtain ⟨_, seen, mid, hseen, rfl, hmid, hrest⟩ | hfails := Observed.split h fun _ _ => observed_getSchemaInfo
  swap
  · exact .inr hfails
  rw [hinfo] at hrest
  have hids : [objectId.toText].mapM cluster.formats.parseUuid = .ok [objectId] :=
    mapM_parseUuid hdocumented [objectId]
  obtain ⟨entries, shown, mid', hshown, ⟨values, hcarries, htells⟩, hmid', hrest⟩ | hfails :=
    Observed.split hrest fun _ _ => observed_query fun _ _ _ => observed_queryMultiple hids
  swap
  · exact .head (hseen.trans hmid) (.inr hfails)
  have hlookup : entries.lookup objectId.toText = ((shown addr).newest objectId).map
      fun row => cluster.formats.toBytes row.payload := by
    refine Option.ext fun bytes => ?_
    rw [hcarries.lookup, htells, Option.map_eq_some_iff]
    constructor
    · rintro ⟨id, row, hid, hrow, rfl⟩
      obtain rfl := Uuid.toText_injective hid
      exact ⟨row, (QueryService.newestOf_eq_some.mp hrow).2, rfl⟩
    · rintro ⟨row, hrow, rfl⟩
      exact ⟨objectId, row, rfl, QueryService.newestOf_eq_some.mpr ⟨List.mem_singleton_self _, hrow⟩, rfl⟩
  cases hnewest : (shown addr).newest objectId with
  | some row =>
    rw [hlookup, hnewest] at hrest
    obtain ⟨rfl, hlater⟩ := interleaved_ret hrest
    exact .head (hseen.trans hmid) (.inl ⟨shown, hshown, by simp [hnewest, Except.toOption], hmid'.trans hlater⟩)
  | none =>
    rw [hlookup, hnewest] at hrest
    obtain ⟨rfl, hlater⟩ := interleaved_ret hrest
    exact .head (hseen.trans hmid) (.inl ⟨shown, hshown, by simp [hnewest, Except.toOption], hmid'.trans hlater⟩)

/-! ## The routes -/

theorem segments_parameter {base name text : String} (hbase : base = "/" ++ name ++ "/")
    (hname : '/' ∉ name.toList) (htext : '/' ∉ text.toList) :
    QueryRouter.Handler.segments (base ++ text) = [name, text] := by
  have hpath : base ++ text = (String.singleton '/').intercalate ["", name, text] := by
    simp [hbase, String.append_assoc]
  rw [QueryRouter.Handler.segments, hpath, split_intercalate (by simp) (by simp [hname, htext])]
  rfl

theorem schemaIdFilter_toText (hdocumented : cluster.Documented) {request : HttpRequest} {schemaId : Uuid}
    (h : request.schemaId = some schemaId.toText) :
    QueryRouter.Handler.schemaIdFilter cluster.crates request = some schemaId := by
  rw [QueryRouter.Handler.schemaIdFilter, h, Option.bind_some, hdocumented.routerUuid]
  rfl

theorem routes_single (hdocumented : cluster.Documented) (objectId schemaId : Uuid) :
    QueryRouter.Handler.routes cluster.crates (singleRequest objectId schemaId) =
      some (QueryRouter.Handler.querySingle objectId schemaId .empty) := by
  have hsegments : QueryRouter.Handler.segments (singleRequest objectId schemaId).path =
      ["single", objectId.toText] :=
    segments_parameter (by decide) (by decide) (Uuid.not_mem_toText (by decide) (by decide))
  have hlength : [(0x7b : UInt8), 0x7d].length ≤ 1024 * 32 := by decide
  have hbody : QueryRouter.Handler.bodyFilter cluster.crates (singleRequest objectId schemaId) = some .empty := by
    rw [QueryRouter.Handler.bodyFilter, singleRequest, if_pos hlength, hdocumented.emptyObject]
    rfl
  have hobject : (cluster.crates.parseUuid objectId.toText).toOption = some objectId := by
    rw [hdocumented.routerUuid]
    rfl
  have hschema : QueryRouter.Handler.schemaIdFilter cluster.crates (singleRequest objectId schemaId) =
      some schemaId := schemaIdFilter_toText hdocumented rfl
  have hmethod : (singleRequest objectId schemaId).method = .post := rfl
  simp [QueryRouter.Handler.routes, hmethod, hsegments, hobject, hschema, hbody]

theorem routes_multiple (hdocumented : cluster.Documented) {objectIds : List Uuid} (hne : objectIds ≠ [])
    (schemaId : Uuid) : QueryRouter.Handler.routes cluster.crates (multipleRequest objectIds schemaId) =
      some (QueryRouter.Handler.queryMultiple cluster.crates
        (",".intercalate (objectIds.map Uuid.toText)) schemaId) := by
  have hslash : '/' ∉ (",".intercalate (objectIds.map Uuid.toText)).toList := by
    intro hmem
    obtain heq | ⟨text, htext, hmem⟩ := mem_intercalate ',' hmem
    · cases heq
    · exact not_mem_toText (by decide) (by decide) objectIds text htext hmem
  have hsegments : QueryRouter.Handler.segments (multipleRequest objectIds schemaId).path =
      ["multiple", ",".intercalate (objectIds.map Uuid.toText)] :=
    segments_parameter (by decide) (by decide) hslash
  have hempty : ",".intercalate (objectIds.map Uuid.toText) ≠ "" := by
    intro hempty
    have hsplit := split_ids hne
    rw [hempty] at hsplit
    have hmem : "" ∈ objectIds.map Uuid.toText := by
      rw [← hsplit]
      decide
    obtain ⟨id, -, hid⟩ := List.mem_map.mp hmem
    have hlength := id.length_toText
    rw [hid] at hlength
    cases hlength
  have hschema : QueryRouter.Handler.schemaIdFilter cluster.crates (multipleRequest objectIds schemaId) =
      some schemaId := schemaIdFilter_toText hdocumented rfl
  have hmethod : (multipleRequest objectIds schemaId).method = .get := rfl
  simp [QueryRouter.Handler.routes, hmethod, hsegments, hempty, hschema]

theorem routes_multiple_nil (schemaId : Uuid) :
    QueryRouter.Handler.routes cluster.crates (multipleRequest [] schemaId) = none := by
  have hsegments : QueryRouter.Handler.segments (multipleRequest [] schemaId).path = ["multiple", ""] :=
    segments_parameter (by decide) (by decide) (by simp)
  have hmethod : (multipleRequest [] schemaId).method = .get := rfl
  simp [QueryRouter.Handler.routes, hmethod, hsegments]

theorem routes_schema (hdocumented : cluster.Documented) (schemaId : Uuid) :
    QueryRouter.Handler.routes cluster.crates (schemaRequest schemaId) =
      some (QueryRouter.Handler.queryBySchema cluster.crates schemaId) := by
  have hsegments : QueryRouter.Handler.segments "/schema" = ["schema"] := by decide
  have hpath : (schemaRequest schemaId).path = "/schema" := rfl
  have hschema : QueryRouter.Handler.schemaIdFilter cluster.crates (schemaRequest schemaId) =
      some schemaId := schemaIdFilter_toText hdocumented rfl
  have hmethod : (schemaRequest schemaId).method = .get := rfl
  simp [QueryRouter.Handler.routes, hmethod, hpath, hsegments, hschema]

/-! ## What the queries return -/

/-- A request that has a route is handled, and the response is sent back. -/
theorem interleaved_send {queryRouterAddr : String} {request : HttpRequest}
    {task : QueryRouter.Handler.Task Bytes} {r : Except FieldError Bytes}
    (hroute : QueryRouter.Handler.routes cluster.crates request = some task)
    (h : Interleaved cluster.Changes cluster.Routes (send queryRouterAddr request).run tables r tables') :
    ∃ before response after, ReflTransGen cluster.Changes tables before ∧
      Interleaved cluster.Changes cluster.Serves task.run before response after ∧
      ReflTransGen cluster.Changes after tables' ∧
      (r = .ok (cluster.reply (response.mapError .custom)) ∨ (cluster.failing ∧ ∃ e, r = .error e)) := by
  obtain ⟨before, answer, after, hbefore, ⟨served, hserved, hreplies⟩, hafter, rfl⟩ := interleaved_perform_ret h
  rw [QueryRouter.Handler.serve, hroute] at hserved
  obtain ⟨response, mid, hresponse, hrest⟩ := interleaved_bind hserved
  obtain ⟨rfl, hlater⟩ := interleaved_ret hrest
  refine ⟨before, response, mid, hbefore, hresponse, hlater.trans hafter, ?_⟩
  obtain ⟨bytes, rfl, rfl⟩ | ⟨hfailing, e, rfl⟩ := hreplies
  · exact .inl rfl
  · exact .inr ⟨hfailing, _, rfl⟩

/-- A map of documents in a response. -/
theorem observed_readMap (hdocumented : cluster.Documented) {queryRouterAddr : String} {request : HttpRequest}
    {task : QueryRouter.Handler.Task Bytes} {P : Tables → List (Uuid × Value) → Prop}
    {r : Except FieldError (List CdlObject)}
    (hroute : QueryRouter.Handler.routes cluster.crates request = some task)
    (htask : ∀ response before after, ReflTransGen cluster.Changes tables before →
      Interleaved cluster.Changes cluster.Serves task.run before response after →
      Observed cluster.Changes cluster.failing (fun mid bytes => ∃ documents,
        cluster.json.readMap bytes = .ok documents ∧ P mid documents) before response after)
    (h : Interleaved cluster.Changes cluster.Routes (do
      let bytes ← send queryRouterAddr request
      let values ← orFail .reqwest (cluster.json.readMap bytes)
      return objectsOf values : FieldResult (List CdlObject)).run tables r tables') :
    Observed cluster.Changes cluster.failing (fun mid objects => ∃ documents,
      objects = objectsOf documents ∧ P mid documents) tables r tables' := by
  obtain ⟨e, rfl, hsend⟩ | ⟨bytes, mid, hsend, hrest⟩ := interleaved_exceptT_bind h
  · obtain ⟨before, response, after, hbefore, hresponse, hafter, hok | ⟨hfailing, -⟩⟩ :=
      interleaved_send hroute hsend
    · cases hok
    · exact .inr ⟨hfailing, ⟨e, rfl⟩, hbefore.trans ((htask _ _ _ hbefore hresponse).reaches.trans hafter)⟩
  obtain ⟨before, response, after, hbefore, hresponse, hafter, hok | ⟨-, e, herror⟩⟩ :=
    interleaved_send hroute hsend
  swap
  · cases herror
  cases hok
  obtain ⟨bytes, seen, rfl, hseen, ⟨documents, hread, hP⟩, hlater⟩ | ⟨hfailing, ⟨e, rfl⟩, hreaches⟩ :=
    htask _ _ _ hbefore hresponse
  · have hreply : cluster.reply ((Except.ok bytes).mapError Rejection.custom) = bytes := rfl
    rw [hreply, hread] at hrest
    obtain ⟨rfl, hend⟩ := interleaved_ret hrest
    exact .inl ⟨_, seen, rfl, hbefore.trans hseen, ⟨documents, rfl, hP⟩, hlater.trans (hafter.trans hend)⟩
  · obtain ⟨-, err, herr⟩ := hdocumented.rejected (.custom e)
    have hreply : cluster.reply ((Except.error e : Except _ Bytes).mapError Rejection.custom) =
        cluster.rejected (.custom e) := rfl
    rw [hreply, herr] at hrest
    obtain ⟨rfl, hend⟩ := interleaved_ret hrest
    exact .inr ⟨hfailing, ⟨_, rfl⟩, hbefore.trans (hreaches.trans (hafter.trans hend))⟩

/-- The documents of the objects that a query returns. -/
def Shows (shown : Uuid → Option Row) (objects : List CdlObject) : Prop :=
  Lists (objects.map fun object => (object.objectId, object.data)) fun id => (shown id).map Row.payload

theorem shows_objectsOf {shown : Uuid → Option Row} {documents : List (Uuid × Value)}
    (h : Lists documents fun id => (shown id).map Row.payload) : Shows shown (objectsOf documents) := by
  rw [Shows, objectsOf, List.map_map]
  exact (List.map_id documents).symm ▸ h

theorem observed_objects (hdocumented : cluster.Documented) (hstores : cluster.StoresReadable addr tables)
    {queryRouterAddr : String} {schemaId : Uuid} {schemaType : SchemaType}
    (hinfo : cluster.schemaInfo schemaId = (addr, schemaType)) {objectIds : List Uuid} (hne : objectIds ≠ [])
    {r : Except FieldError (List CdlObject)}
    (h : Interleaved cluster.Changes cluster.Routes
      (objects cluster.json queryRouterAddr objectIds schemaId).run tables r tables') :
    Observed cluster.Changes cluster.failing (fun mid objects => Shows (newestOf (mid addr) objectIds) objects)
      tables r tables' := by
  have hread := observed_readMap hdocumented (routes_multiple hdocumented hne schemaId)
    (fun _ _ _ hbefore => observed_multipleHandler hdocumented (hstores.later hbefore) hinfo hne) h
  refine hread.mono ?_
  rintro mid _ ⟨documents, rfl, hlists⟩
  exact shows_objectsOf hlists

theorem observed_schemaObjects (hdocumented : cluster.Documented)
    (hstores : cluster.StoresReadable addr tables) {queryRouterAddr : String} {schemaId : Uuid}
    (hinfo : cluster.schemaInfo schemaId = (addr, .documentStorage)) {r : Except FieldError (List CdlObject)}
    (h : Interleaved cluster.Changes cluster.Routes
      (schemaObjects cluster.json queryRouterAddr schemaId).run tables r tables') :
    Observed cluster.Changes cluster.failing (fun mid objects => Shows (newestWith (mid addr) schemaId) objects)
      tables r tables' := by
  have hread := observed_readMap hdocumented (routes_schema hdocumented schemaId)
    (fun _ _ _ hbefore => observed_schemaHandler hdocumented (hstores.later hbefore) hinfo) h
  refine hread.mono ?_
  rintro mid _ ⟨documents, rfl, hlists⟩
  exact shows_objectsOf hlists

/-- A list of no objects is asked for by a path that has no route. -/
theorem objects_nil (hdocumented : cluster.Documented) {queryRouterAddr : String} {schemaId : Uuid}
    {r : Except FieldError (List CdlObject)}
    (h : Interleaved cluster.Changes cluster.Routes
      (objects cluster.json queryRouterAddr [] schemaId).run tables r tables') : ∃ e, r = .error e := by
  obtain ⟨e, rfl, -⟩ | ⟨bytes, mid, hsend, hrest⟩ := interleaved_exceptT_bind h
  · exact ⟨e, rfl⟩
  obtain ⟨before, answer, after, -, ⟨served, hserved, hreplies⟩, -, hbytes⟩ := interleaved_perform_ret hsend
  rw [QueryRouter.Handler.serve, routes_multiple_nil] at hserved
  obtain ⟨rfl, -⟩ := interleaved_ret hserved
  obtain ⟨_, rfl, rfl⟩ | ⟨-, e, rfl⟩ := hreplies
  · cases hbytes
    obtain ⟨-, err, herr⟩ := hdocumented.rejected .filter
    have hreply : cluster.reply (.error .filter) = cluster.rejected .filter := rfl
    rw [hreply, herr] at hrest
    obtain ⟨rfl, -⟩ := interleaved_ret hrest
    exact ⟨_, rfl⟩
  · cases hbytes

theorem finds_object (hdocumented : cluster.Documented) (hstores : cluster.StoresReadable addr tables)
    {queryRouterAddr : String} {objectId schemaId : Uuid}
    (hinfo : cluster.schemaInfo schemaId = (addr, .documentStorage)) {r : Except FieldError CdlObject}
    (h : Interleaved cluster.Changes cluster.Routes
      (object cluster.json queryRouterAddr objectId schemaId).run tables r tables') :
    Finds cluster (fun mid => ((mid addr).newest objectId).map fun row => ⟨objectId, row.payload⟩)
      tables r tables' := by
  have hroute := routes_single hdocumented objectId schemaId
  obtain ⟨e, rfl, hsend⟩ | ⟨bytes, mid, hsend, hrest⟩ := interleaved_exceptT_bind h
  · obtain ⟨before, response, after, hbefore, hresponse, hafter, hok | ⟨hfailing, -⟩⟩ :=
      interleaved_send hroute hsend
    · cases hok
    · have hreaches := (finds_singleHandler hdocumented hinfo hresponse).reaches
      exact .inr ⟨hfailing, ⟨e, rfl⟩, hbefore.trans (hreaches.trans hafter)⟩
  obtain ⟨before, response, after, hbefore, hresponse, hafter, hok | ⟨-, e, herror⟩⟩ :=
    interleaved_send hroute hsend
  swap
  · cases herror
  cases hok
  -- a rejection is no JSON, so its text is an error here
  have hrejected (e : QueryRouter.Handler.Error) (hresponse : response = .error e) :
      (∃ err, r = .error err) ∧ ReflTransGen cluster.Changes mid tables' := by
    obtain ⟨⟨err, herr⟩, -⟩ := hdocumented.rejected (.custom e)
    have hreply : cluster.reply (response.mapError Rejection.custom) = cluster.rejected (.custom e) := by
      rw [hresponse]
      rfl
    rw [hreply, herr] at hrest
    obtain ⟨rfl, hend⟩ := interleaved_ret hrest
    exact ⟨⟨_, rfl⟩, hend⟩
  obtain ⟨seen, hseen, hfound, hlater⟩ | ⟨hfailing, ⟨e, he⟩, hreaches⟩ :=
    finds_singleHandler hdocumented hinfo hresponse
  · cases hvalue : response with
    | ok bytes =>
      rw [hvalue] at hfound
      obtain ⟨row, hnewest, rfl⟩ := Option.map_eq_some_iff.mp hfound.symm
      have hreadable : cluster.Readable row.payload :=
        hstores seen (hbefore.trans hseen) row (DataTable.newest_eq_some.mp hnewest).1.1
      have hreply : cluster.reply (response.mapError Rejection.custom) =
          cluster.formats.toBytes row.payload := by
        rw [hvalue]
        rfl
      rw [hreply, hdocumented.fromSlice _ hreadable] at hrest
      obtain ⟨rfl, hend⟩ := interleaved_ret hrest
      exact .inl ⟨seen, hbefore.trans hseen, by simp [hnewest, Except.toOption],
        hlater.trans (hafter.trans hend)⟩
    | error e =>
      obtain ⟨⟨err, rfl⟩, hend⟩ := hrejected e hvalue
      rw [hvalue] at hfound
      have hnewest : (seen addr).newest objectId = none := Option.map_eq_none_iff.mp hfound.symm
      exact .inl ⟨seen, hbefore.trans hseen, by simp [hnewest, Except.toOption],
        hlater.trans (hafter.trans hend)⟩
  · obtain ⟨herror, hend⟩ := hrejected e he
    exact .inr ⟨hfailing, herror, hbefore.trans (hreaches.trans (hafter.trans hend))⟩

/-- The object of a schema of time series is asked for without a range. -/
theorem object_timeseries (hdocumented : cluster.Documented) {queryRouterAddr : String} {objectId schemaId : Uuid}
    (hinfo : cluster.schemaInfo schemaId = (addr, .timeseries)) {r : Except FieldError CdlObject}
    (h : Interleaved cluster.Changes cluster.Routes
      (object cluster.json queryRouterAddr objectId schemaId).run tables r tables') : ∃ e, r = .error e := by
  obtain ⟨e, rfl, -⟩ | ⟨bytes, mid, hsend, hrest⟩ := interleaved_exceptT_bind h
  · exact ⟨e, rfl⟩
  obtain ⟨before, response, after, -, hresponse, -, hok | ⟨-, e, herror⟩⟩ :=
    interleaved_send (routes_single hdocumented objectId schemaId) hsend
  swap
  · cases herror
  cases hok
  obtain ⟨e, rfl⟩ : ∃ e, response = .error e := by
    obtain ⟨_, _, _, -, rfl, -, hthrow⟩ | ⟨-, he, -⟩ := Observed.split hresponse fun _ _ => observed_getSchemaInfo
    · rw [hinfo] at hthrow
      obtain ⟨rfl, -⟩ := interleaved_ret hthrow
      exact ⟨_, rfl⟩
    · exact he
  obtain ⟨⟨err, herr⟩, -⟩ := hdocumented.rejected (.custom e)
  have hreply : cluster.reply ((Except.error e : Except _ Bytes).mapError Rejection.custom) =
      cluster.rejected (.custom e) := rfl
  rw [hreply, herr] at hrest
  obtain ⟨rfl, -⟩ := interleaved_ret hrest
  exact ⟨_, rfl⟩

end Router

namespace Sample

def bytes (text : String) : Bytes := text.toList.map fun c => UInt8.ofNat c.toNat

def text (bytes : Bytes) : String := String.ofList (bytes.map fun b => Char.ofNat b.toNat)

def one : Value := .number (.posInt 1)

def member (key : String) : String := "\"" ++ key ++ "\":1"

def mapText (keys : List String) : String := "\x7b" ++ ",".intercalate (keys.map member) ++ "\x7d"

def readMember (text : String) : Except String (Uuid × Value) :=
  (Uuid.parse (String.ofList ((text.toList.drop 1).take 36))).map fun id => (id, one)

/-- Reads maps whose documents are `1`. -/
def readMap (bytes : Bytes) : Except String (List (Uuid × Value)) :=
  match (text bytes).toList with
  | '\x7b' :: rest =>
    if rest.dropLast = [] then .ok []
    else (QueryRouter.Handler.split ',' (String.ofList rest.dropLast)).mapM readMember
  | _ => .error "expected value at line 1 column 1"

def fromSlice (b : Bytes) : Except String Value :=
  if b = bytes "1" then .ok one else .error "expected value at line 1 column 1"

def serde : SerdeJson where
  value text := if text = "1" then .ok one else .error "expected value at line 1 column 1"
  routerMessage _ := .error "expected value at line 1 column 1"
  routerMessages _ := .error "expected value at line 1 column 1"
  insertMessage _ := .error "expected value at line 1 column 1"
  rawValue _ := .error "expected value at line 1 column 1"

def cluster : Cluster where
  Changes := Cluster.Stores serde
  failing := False
  formats := { parseUuid := Uuid.parse, toBytes := fun _ => bytes "1" }
  crates :=
    { parseUuid := Uuid.parse
      content := fun b => if b = [0x7b, 0x7d] then .ok (.object []) else .error "expected value"
      fromSlice := fromSlice
      toVec := fun members => .ok (bytes (mapText (members.map (·.1)))) }
  json := { fromSlice := fromSlice, readMap := readMap }
  schemaInfo _ := ("http://localhost:50102", .documentStorage)
  rejected _ := [0x55]

theorem text_bytes {t : String} (h : ∀ c ∈ t.toList, c.toNat < 256) : text (bytes t) = t := by
  have hchars : (bytes t).map (fun b => Char.ofNat b.toNat) = t.toList := by
    rw [bytes, List.map_map]
    refine (List.map_congr_left fun c hc => ?_).trans (List.map_id _)
    show Char.ofNat (UInt8.ofNat c.toNat).toNat = c
    rw [UInt8.toNat_ofNat', Nat.mod_eq_of_lt (h c hc), Char.ofNat_toNat]
  rw [text, hchars, String.ofList_toList]

theorem toList_member (key : String) :
    (member key).toList = '"' :: (key.toList ++ ['"', ':', '1']) := by
  simp [member]

theorem readMember_member (id : Uuid) : readMember (member id.toText) = .ok (id, one) := by
  have htext : ((member id.toText).toList.drop 1).take 36 = id.toText.toList := by
    rw [toList_member, List.drop_one, List.tail_cons, ← id.length_toText, List.take_left]
  rw [readMember, htext, String.ofList_toList, Uuid.parse_toText]
  rfl

theorem member_ascii {id : Uuid} {c : Char} (h : c ∈ (member id.toText).toList) : c.toNat < 256 := by
  rw [toList_member, List.mem_cons, List.mem_append] at h
  by_contra hlarge
  rcases h with rfl | h | h
  · exact hlarge (by decide)
  · refine Uuid.not_mem_toText (fun heq => hlarge (by rw [heq]; decide)) (fun d hd heq => hlarge ?_) h
    have hdigits : ∀ d < 16, (Nat.digitChar d).toNat < 256 := by decide
    rw [← heq]
    exact hdigits d hd
  · simp only [List.mem_cons, List.not_mem_nil, or_false] at h
    rcases h with rfl | rfl | rfl
    all_goals exact hlarge (by decide)

theorem comma_not_mem_member {text : String} {ids : List Uuid} (h : text ∈ (ids.map Uuid.toText).map member) :
    ',' ∉ text.toList := by
  simp only [List.mem_map] at h
  obtain ⟨_, ⟨id, -, rfl⟩, rfl⟩ := h
  rw [toList_member, List.mem_cons, List.mem_append]
  rintro (heq | hmem | hmem)
  · cases heq
  · exact Uuid.not_mem_toText (by decide) (by decide) hmem
  · revert hmem
    decide

theorem mapM_readMember (ids : List Uuid) :
    ((ids.map Uuid.toText).map member).mapM readMember = .ok (ids.map fun id => (id, one)) := by
  induction ids with
  | nil => rfl
  | cons id ids ih =>
    rw [List.map_cons, List.map_cons, List.mapM_cons, readMember_member, ih]
    rfl

theorem readMap_mapText (ids : List Uuid) :
    readMap (bytes (mapText (ids.map Uuid.toText))) = .ok (ids.map fun id => (id, one)) := by
  have hchars : (mapText (ids.map Uuid.toText)).toList =
      '\x7b' :: ((",".intercalate ((ids.map Uuid.toText).map member)).toList ++ ['\x7d']) := by
    simp [mapText]
  have hascii : ∀ c ∈ (mapText (ids.map Uuid.toText)).toList, c.toNat < 256 := by
    rw [hchars]
    intro c hc
    rw [List.mem_cons, List.mem_append, List.mem_singleton] at hc
    rcases hc with rfl | hc | rfl
    · decide
    · obtain rfl | ⟨text, htext, hc⟩ := mem_intercalate ',' hc
      · decide
      · simp only [List.mem_map] at htext
        obtain ⟨_, ⟨id, -, rfl⟩, rfl⟩ := htext
        exact member_ascii hc
    · decide
  rw [readMap, text_bytes hascii, hchars]
  show (if List.dropLast _ = [] then _ else _) = _
  rw [List.dropLast_concat]
  cases ids with
  | nil => rfl
  | cons first rest =>
    have hne : (",".intercalate (((first :: rest).map Uuid.toText).map member)).toList ≠ [] := by
      cases rest <;> simp [toList_member]
    rw [if_neg hne, String.ofList_toList]
    exact (congrArg _ (split_intercalate (by simp) fun _ => comma_not_mem_member)).trans (mapM_readMember _)

theorem fromSlice_rejected : fromSlice [0x55] = .error "expected value at line 1 column 1" := by
  have hbytes : bytes "1" = [0x31] := by simp [bytes]
  rw [fromSlice, hbytes, if_neg (by decide)]

theorem readMap_rejected : readMap [0x55] = .error "expected value at line 1 column 1" := by
  have htext : (text [0x55]).toList = ['U'] := String.toList_ofList
  rw [readMap, htext]
  rfl

theorem readMap_toVec {values : List (Uuid × Value)} (hone : ∀ entry ∈ values, entry.2 = one) :
    readMap (bytes (mapText ((values.map fun entry => (entry.1.toText, entry.2)).map (·.1)))) = .ok values := by
  have hvalues : (values.map (·.1)).map (fun id => (id, one)) = values := by
    rw [List.map_map]
    refine (List.map_congr_left fun entry hentry => ?_).trans (List.map_id _)
    exact Prod.ext rfl (hone entry hentry).symm
  have hread := readMap_mapText (values.map (·.1))
  rw [hvalues, List.map_map] at hread
  rw [List.map_map]
  exact hread

theorem fromSlice_one : fromSlice (bytes "1") = .ok one := if_pos rfl

theorem readable_iff {v : Value} : cluster.Readable v ↔ v = one := by
  show fromSlice (bytes "1") = .ok v ↔ v = one
  rw [fromSlice_one, Except.ok.injEq, eq_comm]

theorem content_braces : cluster.crates.content [0x7b, 0x7d] = .ok (.object []) := by
  dsimp only [cluster]
  rw [if_pos rfl]

theorem parseUuid_toText (id : Uuid) : cluster.formats.parseUuid id.toText = .ok id := by
  dsimp only [cluster]
  exact id.parse_toText

theorem readMap_readable (values : List (Uuid × Value)) (hreadable : ∀ entry ∈ values, cluster.Readable entry.2) :
    ∃ bytes entries, cluster.crates.toVec (values.map fun entry => (entry.1.toText, entry.2)) = .ok bytes ∧
      cluster.json.readMap bytes = .ok entries ∧ entries.Perm values := by
  dsimp only [cluster]
  exact ⟨_, values, rfl, readMap_toVec fun entry hentry => readable_iff.mp (hreadable entry hentry), .refl _⟩

theorem rejected_unread (rejection : Rejection) :
    (∃ e, cluster.json.fromSlice (cluster.rejected rejection) = .error e) ∧
    ∃ e, cluster.json.readMap (cluster.rejected rejection) = .error e := by
  dsimp only [cluster]
  exact ⟨⟨_, fromSlice_rejected⟩, ⟨_, readMap_rejected⟩⟩

theorem documented : cluster.Documented where
  serviceUuid := parseUuid_toText
  routerUuid := parseUuid_toText
  emptyObject := content_braces
  fromSlice _ h := h
  readMap values _ := readMap_readable values
  rejected := rejected_unread

/-! ### A document is inserted while it is asked for -/

def row : Row where
  objectId := 1
  version := 0
  schemaId := 2
  payload := one

def written : Tables :=
  Function.update (fun _ => .empty) "http://localhost:50102" { rows := [row], primaryKey := List.nodup_singleton _ }

theorem changes_written : cluster.Changes (fun _ => .empty) written :=
  ⟨"http://localhost:50102", ⟨1, 2, 0, ⟨"1"⟩⟩, rfl⟩

theorem storesReadable (addr : String) : cluster.StoresReadable addr fun _ => .empty := by
  refine Cluster.storesReadable (fun _ _ h => h) (fun text v hv => ?_) (List.forall_mem_nil _)
  dsimp only [serde] at hv
  split at hv
  · exact readable_iff.mpr (Except.ok.inj hv).symm
  · cases hv

theorem joined_written : (QueryService.Select.multiple [1]).joined (written "http://localhost:50102") = [row] := rfl

theorem interleaved_service : Interleaved cluster.Changes (Selects cluster.failing "http://localhost:50102")
    (QueryService.queryMultiple cluster.formats [Uuid.toText 1]).run written
      (.ok (QueryService.collectIdPayloadRows cluster.formats [row])) written := by
  have hids : [Uuid.toText 1].mapM cluster.formats.parseUuid = .ok [1] := mapM_parseUuid documented [1]
  have hrows : [row].Perm ((QueryService.Select.multiple [1]).joined (written "http://localhost:50102")) := by
    rw [joined_written]
  rw [QueryService.queryMultiple, hids]
  exact .call ⟨rfl, .inl ⟨(), rfl, trivial⟩⟩ (.call ⟨rfl, .inl ⟨(), rfl, trivial⟩⟩
    (.call ⟨rfl, .inl ⟨[row], rfl, hrows⟩⟩ .ret))

theorem carries_row : Carries [(Uuid.toText 1, bytes "1")]
    (QueryService.collectIdPayloadRows cluster.formats [row]) where
  nodup := List.nodup_singleton _
  mem key value := by
    have hmap : QueryService.collectIdPayloadRows cluster.formats [row] =
        Function.update (fun _ => none) (Uuid.toText 1) (some (bytes "1")) := rfl
    rw [hmap, List.mem_singleton]
    by_cases hkey : key = Uuid.toText 1
    · rw [hkey, Function.update_self, Prod.mk.injEq, Option.some.injEq]
      exact ⟨fun h => h.2.symm, fun h => ⟨rfl, h.symm⟩⟩
    · rw [Function.update_of_ne hkey]
      exact ⟨fun h => absurd (Prod.mk.inj h).1 hkey, nofun⟩

theorem interleaved_router {tables : Tables} (hsteps : ReflTransGen cluster.Changes tables written) :
    Interleaved cluster.Changes cluster.Serves (QueryRouter.Handler.serve cluster.crates (singleRequest 1 2))
      tables (.ok (bytes "1")) written := by
  rw [QueryRouter.Handler.serve, routes_single documented]
  exact .call ⟨rfl, .inl ⟨_, rfl, rfl⟩⟩ (.head hsteps (.call ⟨rfl, .inl ⟨(), rfl, trivial⟩⟩
    (.call ⟨_, interleaved_service, .inr ⟨_, rfl, .inl ⟨_, rfl, carries_row⟩⟩⟩ .ret)))

theorem interleaved_object : Interleaved cluster.Changes cluster.Routes
    (object cluster.json "http://localhost:50103" 1 2).run (fun _ => .empty) (.ok ⟨1, one⟩) written :=
  .call ⟨_, interleaved_router (.single changes_written), .inl ⟨_, rfl, rfl⟩⟩ .ret

end Sample

end CommonDataLayer.Api.Objects
