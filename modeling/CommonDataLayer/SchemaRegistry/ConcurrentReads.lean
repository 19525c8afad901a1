import CommonDataLayer.SchemaRegistry.HalfCreated

/-! # Readers among calls that create something

Any number of calls that create schemas, versions and views, and of reads, whose datastore calls are
made in any order among each other. A call that stops for good is one that is not taken up again.

* `Sound`: every part that is missing in the database is owed by some call.
* `Undisturbed`: nothing that a read lists is being created at that time.
* `whole_run`: as long as all reads are undisturbed, they return no `MalformedError`, and the listed
  schemas have definitions.
-/
namespace CommonDataLayer.SchemaRegistry
open Interaction PropertyGraph TransitionSystem
set_option autoImplicit false

/-! ## The system -/

structure Writer where
  program : Task (Except RegistryError Unit)
  progress : Progress

structure Reader where
  read : Read
  program : Task (Except RegistryError Found)

structure Sessions where
  world : World
  writers : List Writer
  readers : List Reader
  /-- The schemas of the edges whose version was set. -/
  versioned : List Uuid

inductive SessionLabel where
  | create (op : Operation)
  | read (read : Read)
  /-- The next datastore call of a writer, or of a reader. -/
  | writer (i : ℕ)
  | reader (j : ℕ)

/-- The schema for which a call sets a version. -/
def Call.versions : Call → Option Uuid
  | .setEdgeProperties key .version _ => some key.outboundId
  | _ => none

namespace Sessions

def start (w : World) : Sessions := { world := w, writers := [], readers := [], versioned := [] }

def step (crates : Crates) (broker : Broker) (s : Sessions) : SessionLabel → Option Sessions
  | .create op =>
    if op.creates then some { s with writers := s.writers ++ [⟨(op.perform crates).run, .start⟩] }
    else none
  | .read read => some { s with readers := s.readers ++ [⟨read, (read.program crates).run⟩] }
  | .writer i => match s.writers[i]? with
    | some ⟨.call q next, progress⟩ =>
      some { s with
        world := (answer broker q s.world).2
        writers := s.writers.set i
          ⟨next (answer broker q s.world).1, progress.after q (answer broker q s.world).1⟩
        versioned := s.versioned ++ q.versions.toList }
    | _ => none
  | .reader j => match s.readers[j]? with
    | some ⟨read, .call q next⟩ =>
      some { s with
        world := (answer broker q s.world).2
        readers := s.readers.set j ⟨read, next (answer broker q s.world).1⟩ }
    | _ => none

abbrev Step (crates : Crates) (broker : Broker) (s : Sessions) (l : SessionLabel) (s' : Sessions) :
    Prop := s.step crates broker l = some s'

/-! ## What is required -/

/-- No read has returned that something is malformed, and every schema that was listed has a
definition. -/
structure Whole (crates : Crates) (broker : Broker) (s : Sessions) : Prop where
  wellFormed : ∀ read result, ⟨read, .ret result⟩ ∈ s.readers → ∀ e, result ≠ .error (.malformedError e)
  defined : ∀ read entries, ⟨read, .ret (.ok (.schemas entries))⟩ ∈ s.readers →
    ∀ entry ∈ entries, ∃ definition,
      (run broker (getSchemaDefinition crates (.any entry.1)) s.world).1 = .ok definition

/-- No writer is between creating a vertex of this type and writing the last of its properties. -/
def NoneWritten (s : Sessions) (t : VertexType) : Prop :=
  ∀ writer ∈ s.writers, ∀ v ∈ writer.progress.vertex, v.2.1 = t → v.2.2 = []

/-- No writer is between creating an edge to a definition and setting its version. -/
def NoneLinked (s : Sessions) : Prop := ∀ writer ∈ s.writers, writer.progress.edge = none

/-- Every writer that has created a schema has set its first version, or another one has set a
version for this schema. -/
def AllVersioned (s : Sessions) : Prop :=
  ∀ writer ∈ s.writers, ∀ id ∈ writer.progress.schema, id ∈ s.versioned

/-- The read that makes its next call lists nothing that is being created. -/
def Undisturbed (s : Sessions) : SessionLabel → Prop
  | .reader j => match s.readers[j]? with
    | some ⟨read, .call (.getAllVertexPropertiesOf t) _⟩ =>
      s.NoneWritten t ∧ (read = .getAllSchemas → s.AllVersioned)
    | some ⟨_, .call (.getAllEdgeProperties .schemaDefinition) _⟩ => s.NoneLinked
    | _ => True
  | _ => True

instance (s : Sessions) (t : VertexType) : Decidable (s.NoneWritten t) :=
  inferInstanceAs <| Decidable (∀ writer ∈ s.writers, ∀ v ∈ writer.progress.vertex, v.2.1 = t → v.2.2 = [])

instance (s : Sessions) : Decidable s.NoneLinked :=
  inferInstanceAs <| Decidable (∀ writer ∈ s.writers, writer.progress.edge = none)

-- as a test of the lists, and not of all identifiers
instance (s : Sessions) : Decidable s.AllVersioned :=
  decidable_of_iff (s.writers.all fun writer => writer.progress.schema.all s.versioned.contains)
    (by simp [AllVersioned, Option.all_eq_true])

instance (read : Read) : Decidable (read = .getAllSchemas) :=
  match read with
  | .getAllSchemas => isTrue rfl
  | .getSchemaVersions _ => isFalse nofun
  | .getSchemaDefinition _ => isFalse nofun
  | .getAllViewsOfSchema _ => isFalse nofun
  | .exportAll => isFalse nofun

instance (s : Sessions) : DecidablePred s.Undisturbed
  | .create _ => isTrue trivial
  | .read _ => isTrue trivial
  | .writer _ => isTrue trivial
  | .reader j => by
    unfold Undisturbed
    dsimp only
    split <;> infer_instance

/-- The version that a new call sets is read back. -/
def ReadsBack (crates : Crates) : SessionLabel → Prop
  | .create op => op.ReadsBack crates
  | _ => True

end Sessions

/-! ## Steps -/

section Invariant
variable {crates : Crates} {broker : Broker} {g g' : Graph} {s s' : Sessions} {i : ℕ}

/-- What a reader has seen so far was whole, and the schemas that were listed have versions. -/
def Reader.Sees (crates : Crates) (g : Graph) (reader : Reader) : Prop :=
  ∃ phase : Reading, phase.whole ∧ ReadsTo crates reader.read.Lists (ExceptT.mk reader.program) phase ∧
    (reader.read = .getAllSchemas → ∀ id ∈ phase.listed, Versioned g id)

def Writer.Keeps (crates : Crates) (g : Graph) (writer : Writer) : Prop :=
  writer.program.Follows (creationProtocol crates) (fun _ _ => True) writer.progress ∧
    writer.progress.Knows g

structure Sound (crates : Crates) (s : Sessions) : Prop where
  readable : Readable crates s.world.graph
  owed (part : Part) : part.MissingIn s.world.graph → ∃ writer ∈ s.writers, writer.progress.Owes part
  writers : ∀ writer ∈ s.writers, writer.Keeps crates s.world.graph
  readers : ∀ reader ∈ s.readers, reader.Sees crates s.world.graph
  versioned : ∀ id ∈ s.versioned, Versioned s.world.graph id

theorem Reader.Sees.mono {reader : Reader} (h : reader.Sees crates g) (hgrows : g.Grows g') :
    reader.Sees crates g' := by
  obtain ⟨phase, hwhole, hreads, hlisted⟩ := h
  exact ⟨phase, hwhole, hreads, fun hread id hid => (hlisted hread id hid).mono hgrows⟩

/-- The handler of a new call. -/
theorem Sound.create (h : Sound crates s) {op : Operation} (hcreates : op.creates)
    (hversion : op.ReadsBack crates) :
    Sound crates { s with writers := s.writers ++ [⟨(op.perform crates).run, .start⟩] } where
  readable := h.readable
  owed part hpart := by
    obtain ⟨writer, hwriter, howes⟩ := h.owed part hpart
    exact ⟨writer, List.mem_append_left _ hwriter, howes⟩
  writers := by
    refine List.forall_mem_append.mpr ⟨h.writers, List.forall_mem_singleton.mpr ⟨?_, nofun, nofun, nofun⟩⟩
    exact (followsOk_perform hcreates hversion).imp fun _ _ _ => trivial
  readers := h.readers
  versioned := h.versioned

theorem Sound.read (h : Sound crates s) (read : Read) :
    Sound crates { s with readers := s.readers ++ [⟨read, (read.program crates).run⟩] } where
  readable := h.readable
  owed := h.owed
  writers := h.writers
  readers := by
    refine List.forall_mem_append.mpr ⟨h.readers, List.forall_mem_singleton.mpr ?_⟩
    exact ⟨.start, trivial, follows_program read, nofun⟩
  versioned := h.versioned

/-- The schema for which a call sets a version is versioned afterwards. -/
theorem versioned_of_versions {p : Progress} {q : Call} {w : World}
    (hallows : (creationProtocol crates).Allows p q) (hknows : p.Knows w.graph) {id : Uuid}
    (hid : id ∈ q.versions) : Versioned (answer broker q w).2.graph id := by
  cases q with
  | setEdgeProperties key name value =>
    obtain ⟨-, rfl, hedge, -⟩ := hallows
    cases hid
    obtain ⟨ht, hkey⟩ := hknows.edge key hedge
    exact versioned_setEdgeProperty ht hkey value
  | _ => cases hid

theorem Sound.writer (h : Sound crates s) {p : Progress} {q : Call}
    {next : Answer q → Task (Except RegistryError Unit)}
    (pending : s.writers[i]? = some ⟨.call q next, p⟩) :
    Sound crates { s with
      world := (answer broker q s.world).2
      writers := s.writers.set i
        ⟨next (answer broker q s.world).1, p.after q (answer broker q s.world).1⟩
      versioned := s.versioned ++ q.versions.toList } := by
  obtain ⟨⟨hallows, hfollows⟩, hknows⟩ := h.writers _ (List.mem_of_getElem? pending)
  have hgrows : s.world.graph.Grows (answer broker q s.world).2.graph := grows_answer q s.world
  constructor
  · exact h.readable.answer hknows hallows
  · intro part hpart
    rcases missing_answer hallows hknows hpart with howes | ⟨hpart, hnot⟩
    · exact ⟨_, List.mem_set (List.getElem?_eq_some_iff.mp pending).1 _, howes⟩
    · obtain ⟨writer, hwriter, howes⟩ := h.owed part hpart
      obtain ⟨j, hj⟩ := List.mem_iff_getElem?.mp hwriter
      refine ⟨writer, List.mem_of_getElem? (i := j) ?_, howes⟩
      rw [List.getElem?_set_ne, hj]
      rintro rfl
      rw [pending, Option.some.injEq] at hj
      subst hj
      exact hnot howes
  · intro writer hwriter
    rcases List.mem_or_eq_of_mem_set hwriter with hwriter | rfl
    · obtain ⟨hother, hknows⟩ := h.writers writer hwriter
      exact ⟨hother, hknows.mono hgrows⟩
    · exact ⟨hfollows _, hknows.answer hallows⟩
  · exact fun reader hreader => (h.readers reader hreader).mono hgrows
  · refine List.forall_mem_append.mpr ⟨fun id hid => (h.versioned id hid).mono hgrows, ?_⟩
    exact fun id hid => versioned_of_versions hallows hknows (Option.mem_toList.mp hid)

theorem answer_of_reads {q : Call} (hq : q.Reads) (w : World) : (answer broker q w).2 = w := by
  cases q <;> first | rfl | exact hq.elim

/-- Nothing is missing of what a read lists when no writer owes it. -/
theorem Sound.listsWhole (h : Sound crates s) {j : ℕ} {read : Read} {q : Call}
    {next : Answer q → Task (Except RegistryError Found)}
    (pending : s.readers[j]? = some ⟨read, .call q next⟩) (hcalm : s.Undisturbed (.reader j)) :
    q.ListsWhole s.world.graph := by
  rw [Sessions.Undisturbed, pending] at hcalm
  cases q with
  | getAllVertexPropertiesOf t =>
    intro id name hpart
    obtain ⟨writer, hwriter, rest, hvertex, hmem⟩ := h.owed _ hpart
    obtain rfl : rest = [] := hcalm.1 writer hwriter _ hvertex rfl
    cases hmem
  | getAllEdgeProperties t =>
    cases t with
    | schemaDefinition =>
      intro key hpart
      obtain ⟨writer, hwriter, hedge⟩ := h.owed _ hpart
      have hnone := hcalm writer hwriter
      rw [hedge] at hnone
      cases hnone
    | schemaView => trivial
  | _ => trivial

/-- The schemas that are listed have versions. -/
theorem Sound.listed (h : Sound crates s) {j : ℕ} {q : Call}
    {next : Answer q → Task (Except RegistryError Found)} {phase : Reading}
    (pending : s.readers[j]? = some ⟨.getAllSchemas, .call q next⟩)
    (hcalm : s.Undisturbed (.reader j))
    (hlisted : ∀ id ∈ phase.listed, Versioned s.world.graph id) :
    ∀ id ∈ (phase.after crates q (answer broker q s.world).1).listed,
      Versioned s.world.graph id := by
  rw [Sessions.Undisturbed, pending] at hcalm
  cases q with
  | getAllVertexPropertiesOf t =>
    cases t with
    | schema =>
      intro id hid
      obtain ⟨⟨listedId, t, props⟩, hentry, rfl⟩ := List.mem_map.mp hid
      obtain ⟨hvertex, rfl⟩ := Graph.mem_verticesOf.mp hentry
      by_contra hnot
      obtain ⟨writer, hwriter, hschema⟩ := h.owed (.definition listedId) ⟨⟨props, hvertex⟩, hnot⟩
      exact hnot (h.versioned listedId (hcalm.2 rfl writer hwriter listedId hschema))
    | definition => exact hlisted
    | view => exact hlisted
  | _ => exact hlisted

theorem Sound.reader (h : Sound crates s) {j : ℕ} {read : Read} {q : Call}
    {next : Answer q → Task (Except RegistryError Found)}
    (pending : s.readers[j]? = some ⟨read, .call q next⟩) (hcalm : s.Undisturbed (.reader j)) :
    Sound crates { s with
      world := (answer broker q s.world).2
      readers := s.readers.set j ⟨read, next (answer broker q s.world).1⟩ } := by
  obtain ⟨phase, hwhole, ⟨hreads, hfollows⟩, hlisted⟩ := h.readers _ (List.mem_of_getElem? pending)
  rw [answer_of_reads hreads s.world]
  refine ⟨h.readable, h.owed, h.writers, fun reader hreader => ?_, h.versioned⟩
  rcases List.mem_or_eq_of_mem_set hreader with hreader | rfl
  · exact h.readers reader hreader
  · refine ⟨phase.after crates q (answer broker q s.world).1, ?_, hfollows _, ?_⟩
    · exact ⟨hwhole, h.readable.wholeAnswer (h.listsWhole pending hcalm)⟩
    · rintro rfl
      exact h.listed pending hcalm (hlisted rfl)

theorem Sound.step {l : SessionLabel} (h : Sound crates s) (hstep : Sessions.Step crates broker s l s')
    (hversion : Sessions.ReadsBack crates l) (hcalm : s.Undisturbed l) : Sound crates s' := by
  cases l with
  | create op =>
    simp only [Sessions.Step, Sessions.step] at hstep
    split at hstep
    · cases hstep
      exact h.create ‹_› hversion
    · cases hstep
  | read read =>
    cases hstep
    exact h.read read
  | writer i =>
    simp only [Sessions.Step, Sessions.step] at hstep
    split at hstep
    · cases hstep
      exact h.writer ‹_›
    · cases hstep
  | reader j =>
    simp only [Sessions.Step, Sessions.step] at hstep
    split at hstep
    · cases hstep
      exact h.reader ‹_› hcalm
    · cases hstep

/-! ## Runs -/

theorem Sound.whole (h : Sound crates s) (broker : Broker) : s.Whole crates broker where
  wellFormed read result hreader := by
    obtain ⟨phase, hwhole, hreads, -⟩ := h.readers _ hreader
    exact hreads.1 hwhole
  defined read entries hreader entry hentry := by
    obtain ⟨phase, -, hreads, hlisted⟩ := h.readers _ hreader
    obtain ⟨hread, hmem⟩ := hreads.2 _ rfl entries rfl
    rw [run_getSchemaDefinition]
    exact h.readable.latestDefinition (hlisted hread entry.1 (hmem entry hentry))

theorem sound_start {w : World} (hencoded : Encoded crates w.graph) (htyped : WellTyped w.graph) :
    Sound crates (.start w) where
  readable := hencoded.readable htyped
  owed part hpart := absurd hpart (hencoded.not_missing htyped part)
  writers := nofun
  readers := nofun
  versioned := nofun

theorem whole_run {w : World} {ts : List (Transition Sessions SessionLabel)}
    (hencoded : Encoded crates w.graph) (htyped : WellTyped w.graph)
    (hrun : Run (Sessions.Step crates broker) (.start w) ts s)
    (hversions : ∀ t ∈ ts, Sessions.ReadsBack crates t.label)
    (hcalm : ∀ t ∈ ts, t.before.Undisturbed t.label) :
    ∀ s ∈ states (.start w) ts, s.Whole crates broker := by
  have hstart : Sound crates (.start w) := sound_start hencoded htyped
  have hsound : ∀ s ∈ states (.start w) ts, Sound crates s := hrun.invariant_states hstart
    (fun s l s' h next (hok : Sessions.ReadsBack crates l ∧ s.Undisturbed l) =>
      h.step next hok.1 hok.2)
    fun t ht => ⟨hversions t ht, hcalm t ht⟩
  exact fun s hs => (hsound s hs).whole broker

end Invariant

/-! ## One schema, and one reader -/

/-- The schemas that a reader has listed. -/
def Reader.listedIds (reader : Reader) : Option (List Uuid) :=
  match reader.program with
  | .ret (.ok (.schemas entries)) => some (entries.map (·.1))
  | _ => none

def Reader.malformedSchema (reader : Reader) : Option Uuid :=
  match reader.program with
  | .ret (.error (.malformedError (.malformedSchema id))) => some id
  | _ => none

def sampleSessions : Sessions := .start (sampleWorld .empty 2 3)

def createLabel : SessionLabel := .create (.addSchema sampleNewSchema (some 1))

/-- The reader begins while the schema is being created, and lists it when that is finished. -/
def calmLabels : List SessionLabel :=
  [createLabel, .writer 0, .writer 0, .read .getAllSchemas, .reader 0] ++
    List.replicate 10 (.writer 0) ++ [.reader 0]

/-- The schema is created, and its properties are never written. -/
def halfCreatedLabels : List SessionLabel :=
  [createLabel, .writer 0, .writer 0, .read .getAllSchemas, .reader 0, .reader 0]

theorem readsBack_labels {labels : List SessionLabel}
    (h : ∀ op, .create op ∈ labels → op = .addSchema sampleNewSchema (some 1)) :
    ∀ l ∈ labels, Sessions.ReadsBack sampleCrates l := by
  intro l hl
  cases l with
  | create op =>
    obtain rfl := h op hl
    exact readsBack_sample
  | _ => trivial

theorem whole_run_calm : ∃ ts s, Run (Sessions.Step sampleCrates sampleBroker) sampleSessions ts s ∧
    s.readers.map Reader.listedIds = [some [1]] ∧
    ∀ s ∈ states sampleSessions ts, s.Whole sampleCrates sampleBroker := by
  have hcalm : (calmLabels.foldlM (fun (s : Sessions) l => if s.Undisturbed l then
      s.step sampleCrates sampleBroker l else none) sampleSessions).map
      (fun s => s.readers.map Reader.listedIds) = some [some [1]] := by decide +kernel
  obtain ⟨s, hs, hlisted⟩ := Option.map_eq_some_iff.mp hcalm
  obtain ⟨ts, hrun, hlabels, hcalm⟩ := Run.of_steps_if hs
  have hversions : ∀ t ∈ ts, Sessions.ReadsBack sampleCrates t.label :=
    forall_label hlabels (readsBack_labels (by simp [calmLabels, createLabel]))
  exact ⟨ts, s, hrun, hlisted, whole_run encoded_empty wellTyped_empty hrun hversions hcalm⟩

theorem not_whole_half_created : ¬ ∀ (w : World) (ts : List (Transition Sessions SessionLabel))
    (s : Sessions), Encoded sampleCrates w.graph → WellTyped w.graph →
    Run (Sessions.Step sampleCrates sampleBroker) (.start w) ts s →
    (∀ t ∈ ts, Sessions.ReadsBack sampleCrates t.label) →
    ∀ s ∈ states (.start w) ts, s.Whole sampleCrates sampleBroker := by
  intro h
  have hlast : (halfCreatedLabels.foldlM (Sessions.step sampleCrates sampleBroker) sampleSessions).map
      (fun s => s.readers.map Reader.malformedSchema) = some [some 1] := by decide +kernel
  obtain ⟨s, hs, hmalformed⟩ := Option.map_eq_some_iff.mp hlast
  obtain ⟨ts, hrun, hlabels⟩ := Run.of_steps hs
  have hversions : ∀ t ∈ ts, Sessions.ReadsBack sampleCrates t.label :=
    forall_label hlabels (readsBack_labels (by simp [halfCreatedLabels, createLabel]))
  have hwhole := h _ ts s encoded_empty wellTyped_empty hrun hversions s hrun.last_mem_states
  obtain ⟨reader, hreaders, hreader⟩ : ∃ reader, s.readers = [reader] ∧ reader.malformedSchema = some 1 := by
    simpa [List.map_eq_singleton_iff] using hmalformed
  obtain ⟨read, program⟩ := reader
  unfold Reader.malformedSchema at hreader
  dsimp only at hreader
  split at hreader
  · exact hwhole.wellFormed read _ (by rw [hreaders]; exact List.mem_singleton_self _) _ rfl
  · cases hreader

end CommonDataLayer.SchemaRegistry
