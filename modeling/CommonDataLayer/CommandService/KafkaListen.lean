import CommonDataLayer.Foundations.LogReader
import CommonDataLayer.Utils.KafkaRestart
import CommonDataLayer.CommandService.Acknowledgement

/-! # The command service consuming from Kafka

The loop of `listen` over the merged streams of its consumers, one for each topic, each with its
own acknowledgement queue. The plugin and the broker may answer anything, at any time.

* `Books`: the invariant. Until a panic poisons the mutex of a topic, the queues of the topic are
  those of a session that consumed what was taken and acknowledged what was acknowledged.
* `kafkaReader_guarantees`: so every taken message up to a stored offset has gone through the
  message router.
-/
namespace CommonDataLayer.CommandService
open Interaction MessagingSystem KafkaConsumer KafkaPartitionAckQueue
set_option autoImplicit false

def kafkaHost : Host BorrowedMessage Answer where
  World := String → KafkaConsumer
  take message consumers consumers' := (consumers message.topic).poisoned = false ∧
    consumers' = Function.update consumers message.topic ((consumers message.topic).add message)
  takeAborts message consumers := (consumers message.topic).poisoned = true
  answer message call consumers a consumers' := match call, a with
    | .ack, a => a = .ok () ∧ (consumers message.topic).poisoned = false ∧ ∃ storeFails consumer,
        (consumers message.topic).ack message storeFails = .returns consumer ∧
          consumers' = Function.update consumers message.topic consumer
    | _, _ => consumers' = consumers
  panics message call consumers consumers' := match call with
    | .panic => consumers' = consumers
    | .ack => (consumers message.topic).poisoned = false ∧ ∃ storeFails consumer,
        (consumers message.topic).ack message storeFails = .panics consumer ∧
          consumers' = Function.update consumers message.topic consumer
    | _ => False
  aborts message call consumers := match call with
    | .abort => True
    | .ack => (consumers message.topic).poisoned = true
    | _ => False

/-- The loop of `listen`; an error of a stream aborts the process. -/
def kafkaListen (json : SerdeJson) (sender : ReportSender) (taskLimit : ℕ) :
    Consumer BorrowedMessage Answer where
  toHost := kafkaHost
  limit := taskLimit
  body message := MessageQueueInput.spawnedTask json sender (kafkaCommunicationMessage message)
  fetchErrorAborts := true

/-- The service as a reader of its topics. -/
def kafkaReader (json : SerdeJson) (sender : ReportSender) (taskLimit : ℕ) (topics : List String) :
    LogReader BorrowedMessage (String × ℕ) ℤ Answer where
  toConsumer := kafkaListen json sender taskLimit
  initial _ := .initial
  partition message := (message.topic, message.partition)
  offset message := message.offset
  reads partition := partition.1 ∈ topics
  stored consumers partition := (consumers partition.1).stored[partition.2]?

variable {json : SerdeJson} {sender : ReportSender} {taskLimit : ℕ} {topics : List String}

/-! ## A task before its acknowledgement -/

/-- The message went through the message router, which succeeded. -/
def Settled (json : SerdeJson) (sender : ReportSender) (message : BorrowedMessage) (t : Trace) : Prop :=
  ∃ insert t₁ t₂, MessageQueueInput.buildMessage json (kafkaCommunicationMessage message) = .ok insert ∧
    t = t₁ ++ t₂ ∧ Handled json insert sender t₁ (.ok ())

theorem Settled.mono {message : BorrowedMessage} {t : Trace} (h : Settled json sender message t)
    (more : Trace) : Settled json sender message (t ++ more) := by
  obtain ⟨insert, t₁, t₂, hbuild, rfl, hhandled⟩ := h
  exact ⟨insert, t₁, t₂ ++ more, hbuild, List.append_assoc _ _ _, hhandled⟩

theorem steps_handleMessage_ack {message : CommunicationMessage} {t : Trace}
    {next : Except MessagingSystem.Error Unit → Task (Except InputError Unit)}
    (h : Steps (MessageQueueInput.handleMessage json sender message) t (.call .ack next)) :
    ∃ insert, MessageQueueInput.buildMessage json message = .ok insert ∧
      Handled json insert sender t (.ok ()) := by
  unfold MessageQueueInput.handleMessage at h
  cases hbuild : MessageQueueInput.buildMessage json message with
  | error e =>
    rw [hbuild] at h
    obtain ⟨_, h⟩ := steps_ret.mp h
    cases h
  | ok insert =>
    rw [hbuild] at h
    obtain ⟨r, t₁, t₂, rfl, h₁, h₂⟩ := steps_bind_call all_routeMessage (by simp) h
    cases r with
    | error e =>
      obtain ⟨_, h⟩ := steps_ret.mp h₂
      cases h
    | ok _ =>
      have hnone : t₂ = [] := by
        cases h₂ with
        | refl => rfl
        | @call _ _ a _ _ rest => cases a <;> exact nomatch (steps_ret.mp rest).2
      rw [hnone, List.append_nil]
      exact ⟨insert, rfl, returns_routeMessage.mp h₁⟩

/-- **What a task has done when it acknowledges**, which it does once. -/
theorem settled_of_ack {message : BorrowedMessage} {t : Trace}
    {next : Except MessagingSystem.Error Unit → Task Unit}
    (h : Steps (MessageQueueInput.spawnedTask json sender (kafkaCommunicationMessage message)) t
      (.call .ack next)) : Settled json sender message t ∧ ¬ Acknowledged t := by
  rcases steps_bind h with ⟨p, hp, heq⟩ | ⟨r, t₁, t₂, -, -, h₂⟩
  · cases p with
    | ret r => cases r <;> exact nomatch heq
    | call q next' =>
      cases heq
      obtain ⟨insert, hbuild, hhandled⟩ := steps_handleMessage_ack hp
      refine ⟨⟨insert, t, [], hbuild, (List.append_nil t).symm, hhandled⟩, ?_⟩
      rintro ⟨a, ha⟩
      exact all_routeMessage.mem (returns_routeMessage.mpr hhandled) ha rfl
  · cases r with
    | error e =>
      cases h₂ with
      | @call _ _ a => exact a.elim
    | ok _ => exact nomatch (steps_ret.mp h₂).2

/-! ## The queues of a running service -/

abbrev ListenState : Type := Pool BorrowedMessage Answer (String → KafkaConsumer)

/-- Message `i` was taken from this partition with this offset. -/
def Taken (s : ListenState) (topic : String) (partition : ℕ) (offset : ℤ) (i : ℕ) : Prop :=
  ∃ m, s.taken[i]? = some m ∧ m.topic = topic ∧ m.partition = partition ∧ m.offset = offset

/-- The consumer of a topic is that of the session, which knows what was taken and acknowledged. -/
structure Books (s : ListenState) (topic : String) (session : Session) : Prop where
  running : (s.world topic).poisoned = false → s.world topic = session.consumer
  stored : (s.world topic).stored = session.consumer.stored
  tracks : ∀ p, (session.partition topic p).Tracks
  added : ∀ p offset, offset ∈ session.added p ↔ ∃ i, Taken s topic p offset i
  acked : ∀ p offset, offset ∈ session.acked p ↔
    ∃ i, Taken s topic p offset i ∧ Acknowledged (s.logOf i)

section Steps
variable {s s' : ListenState} {topic : String} {session : Session} {m : BorrowedMessage}

theorem acknowledged_iff {i : ℕ} :
    Acknowledged (s.logOf i) ↔ ∃ a, (i, (⟨.ack, a⟩ : Event Answer)) ∈ s.log := by
  simp only [Acknowledged, Pool.mem_logOf]

theorem acknowledged_append {q : Call} {a : Answer q} {i : ℕ} (h : s'.log = s.log ++ [(i, ⟨q, a⟩)])
    (j : ℕ) : Acknowledged (s'.logOf j) ↔ Acknowledged (s.logOf j) ∨ j = i ∧ q = .ack := by
  rw [acknowledged_iff, acknowledged_iff, h]
  constructor
  · rintro ⟨b, hb⟩
    rcases List.mem_append.mp hb with hb | hb
    · exact .inl ⟨b, hb⟩
    · have heq := List.mem_singleton.mp hb
      simp only [Prod.mk.injEq, Sigma.mk.injEq] at heq
      exact .inr ⟨heq.1, heq.2.1.symm⟩
  · rintro (⟨b, hb⟩ | ⟨rfl, rfl⟩)
    · exact ⟨b, List.mem_append_left _ hb⟩
    · exact ⟨a, by simp⟩

theorem taken_append (h : s'.taken = s.taken ++ [m]) {p : ℕ} {offset : ℤ} {i : ℕ} :
    Taken s' topic p offset i ↔ Taken s topic p offset i ∨
      i = s.taken.length ∧ m.topic = topic ∧ m.partition = p ∧ m.offset = offset := by
  unfold Taken
  rw [h]
  rcases Nat.lt_trichotomy i s.taken.length with hlt | rfl | hgt
  · rw [List.getElem?_append_left hlt]
    simp only [Nat.ne_of_lt hlt, false_and, or_false]
  · simp
  · rw [List.getElem?_eq_none (by simp; omega), List.getElem?_eq_none (by omega)]
    simp only [reduceCtorEq, false_and, exists_false, Nat.ne_of_gt hgt, or_self]

theorem taken_congr (h : s'.taken = s.taken) {p : ℕ} {offset : ℤ} {i : ℕ} :
    Taken s' topic p offset i ↔ Taken s topic p offset i := by
  simp only [Taken, h]

theorem Taken.of_message {p : ℕ} {offset : ℤ} {i : ℕ} (h : Taken s topic p offset i)
    (hi : s.taken[i]? = some m) : m.topic = topic ∧ m.partition = p ∧ m.offset = offset := by
  obtain ⟨n, hn, hplace⟩ := h
  obtain rfl := Option.some.inj (hn.symm.trans hi)
  exact hplace

/-- Two messages of one partition lie at different offsets. -/
theorem taken_inj (increasing : (kafkaReader json sender taskLimit topics).Increasing s.taken) {p : ℕ}
    {offset : ℤ} {i j : ℕ} (hi : Taken s topic p offset i) (hj : Taken s topic p offset j) : i = j := by
  obtain ⟨m, hm, rfl, rfl, rfl⟩ := hi
  obtain ⟨n, hn, htopic, hp, ho⟩ := hj
  obtain ⟨hil, rfl⟩ := List.getElem?_eq_some_iff.mp hm
  obtain ⟨hjl, rfl⟩ := List.getElem?_eq_some_iff.mp hn
  have hsame : (kafkaReader json sender taskLimit topics).partition s.taken[j] =
      (kafkaReader json sender taskLimit topics).partition s.taken[i] :=
    Prod.ext_iff.mpr ⟨htopic, hp⟩
  rcases Nat.lt_trichotomy i j with h | h | h
  · exact absurd ho (Int.ne_of_gt (List.pairwise_iff_getElem.mp increasing i j hil hjl h hsame.symm))
  · exact h
  · exact absurd ho (Int.ne_of_lt (List.pairwise_iff_getElem.mp increasing j i hjl hil h hsame))

theorem Books.start (messages : List BorrowedMessage) (topic : String) :
    Books (Pool.start messages fun _ => .initial) topic .initial where
  running _ := rfl
  stored := rfl
  tracks := (Session.good_initial topic fun _ => []).tracks
  added := by simp [Session.initial, Taken, Pool.start, Pool.taken]
  acked := by simp [Session.initial, Taken, Pool.start, Pool.taken]

/-- A step that concerns the topic in nothing but that its consumer may panic. -/
theorem Books.congr (h : Books s topic session)
    (htaken : ∀ p offset i, Taken s' topic p offset i ↔ Taken s topic p offset i)
    (hacked : ∀ p offset i, Taken s topic p offset i →
      (Acknowledged (s'.logOf i) ↔ Acknowledged (s.logOf i)))
    (hworld : s'.world topic = s.world topic ∨ (s'.world topic).poisoned = true ∧
      (s'.world topic).stored = (s.world topic).stored) : Books s' topic session where
  running hpoisoned := by
    rcases hworld with hworld | ⟨hpanic, -⟩
    · rw [hworld] at hpoisoned ⊢
      exact h.running hpoisoned
    · rw [hpanic] at hpoisoned
      cases hpoisoned
  stored := by
    rcases hworld with hworld | ⟨-, hstored⟩
    · rw [hworld, h.stored]
    · rw [hstored, h.stored]
  tracks := h.tracks
  added p offset := by simp only [h.added, htaken]
  acked p offset := by
    rw [h.acked]
    exact exists_congr fun i => by
      rw [htaken]
      exact and_congr_right fun hi => (hacked p offset i hi).symm

/-- A message that enters its queue comes after all the messages of its partition. -/
theorem Books.take (h : Books s m.topic session) (htaken : s'.taken = s.taken ++ [m])
    (hlog : s'.log = s.log) (hpoisoned : (s.world m.topic).poisoned = false)
    (hworld : s'.world m.topic = (s.world m.topic).add m)
    (hnew : ¬ Acknowledged (s.logOf s.taken.length))
    (hlast : ∀ i offset, Taken s m.topic m.partition offset i → offset < m.offset) :
    Books s' m.topic (session.add m) := by
  have hconsumer := h.running hpoisoned
  have hbelow : ∀ x ∈ session.added m.partition, x < m.offset := fun x hx => by
    obtain ⟨i, hi⟩ := (h.added _ x).mp hx
    exact hlast i x hi
  have hsorted (p : ℕ) : ((session.add m).added p).Pairwise (· < ·) := by
    by_cases hp : p = m.partition
    · subst hp
      simp only [Session.add, Function.update_self]
      refine List.pairwise_append.mpr ⟨(h.tracks _).sorted, List.pairwise_singleton _ _, ?_⟩
      intro x hx y hy
      rw [List.mem_singleton.mp hy]
      exact hbelow x hx
    · have hsame : (session.add m).added p = session.added p := Function.update_of_ne hp _ _
      rw [hsame]
      exact (h.tracks p).sorted
  have hstep : Session.Step m.topic (session.add m).added session (.add m) (session.add m) :=
    .add rfl (by simp [Session.add])
  have hacknowledged (j : ℕ) : Acknowledged (s'.logOf j) ↔ Acknowledged (s.logOf j) := by
    rw [acknowledged_iff, acknowledged_iff, hlog]
  refine ⟨fun _ => ?_, ?_, fun p => ?_, fun p offset => ?_, fun p offset => ?_⟩
  · rw [hworld, hconsumer]
    rfl
  · rw [hworld, hconsumer]
    rfl
  · by_cases hp : p = m.partition
    · subst hp
      exact (h.tracks _).step (Session.partition_step hsorted hstep)
    · rw [Session.partition_frame hstep hp]
      exact h.tracks p
  · simp only [taken_append htaken]
    by_cases hp : p = m.partition
    · subst hp
      simp only [Session.add, Function.update_self, List.mem_append, h.added, List.mem_singleton]
      constructor
      · rintro (⟨i, hi⟩ | rfl)
        · exact ⟨i, .inl hi⟩
        · exact ⟨_, .inr ⟨rfl, trivial, trivial, rfl⟩⟩
      · rintro ⟨i, hi | ⟨-, -, -, rfl⟩⟩
        · exact .inl ⟨i, hi⟩
        · exact .inr rfl
    · simp [Session.add, hp, h.added, Ne.symm hp]
  · simp only [taken_append htaken, hacknowledged]
    show offset ∈ session.acked p ↔ _
    rw [h.acked]
    refine exists_congr fun i => ⟨fun h => ⟨.inl h.1, h.2⟩, ?_⟩
    rintro ⟨hi | ⟨rfl, -⟩, ha⟩
    · exact ⟨hi, ha⟩
    · exact absurd ha hnew

/-- Task `i` acknowledges its message. -/
theorem Books.ack (h : Books s m.topic session) {i : ℕ} {consumer : KafkaConsumer} {storeFails : Bool}
    (hi : s.taken[i]? = some m) (htaken : s'.taken = s.taken)
    (hacked : ∀ j, Acknowledged (s'.logOf j) ↔ Acknowledged (s.logOf j) ∨ j = i)
    (hfresh : ∀ j, Taken s m.topic m.partition m.offset j → ¬ Acknowledged (s.logOf j))
    (hpoisoned : (s.world m.topic).poisoned = false)
    (hreturns : (s.world m.topic).ack m storeFails = .returns consumer)
    (hworld : s'.world m.topic = consumer) :
    Books s' m.topic (session.ack m consumer) := by
  rw [h.running hpoisoned] at hreturns
  have hstep : Session.Step m.topic session.added session (.ack m) (session.ack m consumer) := by
    refine .ack ((h.added _ _).mpr ⟨i, m, hi, rfl, rfl, rfl⟩) (fun hmem => ?_) hreturns
    obtain ⟨j, hj, ha⟩ := (h.acked _ _).mp hmem
    exact hfresh j hj ha
  refine ⟨fun _ => hworld, by rw [hworld]; rfl, fun p => ?_, fun p offset => ?_, fun p offset => ?_⟩
  · by_cases hp : p = m.partition
    · subst hp
      exact (h.tracks _).step (Session.partition_step (fun p => (h.tracks p).sorted) hstep)
    · rw [Session.partition_frame hstep hp]
      exact h.tracks p
  · simp only [taken_congr htaken]
    exact h.added p offset
  · simp only [taken_congr htaken, hacked, and_or_left, exists_or, ← h.acked]
    by_cases hp : p = m.partition
    · subst hp
      simp only [Session.ack, Function.update_self, List.mem_cons]
      constructor
      · rintro (rfl | hmem)
        · exact .inr ⟨i, ⟨m, hi, rfl, rfl, rfl⟩, rfl⟩
        · exact .inl hmem
      · rintro (hmem | ⟨j, hj, rfl⟩)
        · exact .inr hmem
        · exact .inl (hj.of_message hi).2.2.symm
    · have hother : ¬ Taken s m.topic p offset i := fun hj => hp (hj.of_message hi).2.1.symm
      simp [Session.ack, hp, hother]

theorem ack_panics {consumer consumer' : KafkaConsumer} {storeFails : Bool}
    (h : consumer.ack m storeFails = .panics consumer') :
    consumer'.poisoned = true ∧ consumer'.stored = consumer.stored := by
  unfold KafkaConsumer.ack at h
  split at h
  · cases h; exact ⟨rfl, rfl⟩
  · split at h
    · cases h; exact ⟨rfl, rfl⟩
    · cases h
    · cases h
    · split at h
      · cases h; exact ⟨rfl, rfl⟩
      · cases h

theorem Books.step {messages : List BorrowedMessage}
    (increasing : (kafkaReader json sender taskLimit topics).Increasing messages)
    (hs : (kafkaListen json sender taskLimit).Sound messages s)
    (h : ∀ topic, ∃ session, Books s topic session)
    (hstep : (kafkaListen json sender taskLimit).Step s s') (topic : String) :
    ∃ session, Books s' topic session := by
  have hprefix : (kafkaReader json sender taskLimit topics).Increasing s.taken :=
    (List.pairwise_append.mp (hs.source.symm ▸ increasing)).1
  obtain ⟨session, hbooks⟩ := h topic
  rcases hstep.effect with ⟨m, hstream, htaken, hlog, hpoisoned, hworld⟩ |
    ⟨i, m, q, next, a, hpending, htaken, hlog, hanswer⟩ |
    ⟨m, q, htaken, hlog, hpanic⟩ | ⟨htaken, hlog, hworld⟩
  · by_cases htopic : topic = m.topic
    · subst htopic
      refine ⟨_, hbooks.take htaken hlog hpoisoned (by rw [hworld, Function.update_self]) ?_ ?_⟩
      · rw [acknowledged_iff]
        rintro ⟨a, ha⟩
        have hb := hs.bound _ ha
        simp only [Pool.taken, List.length_append, List.length_map] at hb
        omega
      · rintro i offset ⟨n, hn, hnt, hnp, rfl⟩
        have hpair := (List.pairwise_append.mp (hs.source.symm ▸ increasing)).2.2
        exact hpair n (List.mem_of_getElem? hn) m (by simp [hstream]) (Prod.ext_iff.mpr ⟨hnt, hnp⟩)
    · refine ⟨session, hbooks.congr (fun p offset i => ?_) (fun p offset i _ => ?_) (.inl ?_)⟩
      · simp [taken_append htaken, Ne.symm htopic]
      · rw [acknowledged_iff, acknowledged_iff, hlog]
      · rw [hworld, Function.update_of_ne htopic]
  · have hacked := acknowledged_append hlog
    by_cases hq : q = .ack
    · subst hq
      obtain ⟨-, hpoisoned, storeFails, consumer, hack, hworld⟩ := hanswer
      have hi := Consumer.taken_of_task hpending
      by_cases htopic : topic = m.topic
      · subst htopic
        obtain ⟨rest, htrace, hrest, _⟩ := hs.trace i m _ hpending
        obtain rfl := hrest _ rfl
        refine ⟨_, hbooks.ack hi htaken (by simpa using hacked) (fun j hj => ?_)
          hpoisoned hack (by rw [hworld, Function.update_self])⟩
        rw [taken_inj hprefix hj ⟨m, hi, rfl, rfl, rfl⟩]
        exact (settled_of_ack htrace).2
      · refine ⟨session, hbooks.congr (fun _ _ _ => taken_congr htaken) (fun p offset j hj => ?_)
          (.inl ?_)⟩
        · have hne : j ≠ i := by
            rintro rfl
            exact htopic (hj.of_message hi).1.symm
          simp [hacked, hne]
        · rw [hworld, Function.update_of_ne htopic]
    · refine ⟨session, hbooks.congr (fun _ _ _ => taken_congr htaken)
        (fun p offset j _ => by simp [hacked, hq]) (.inl ?_)⟩
      have hworld : s'.world = s.world := by
        cases q <;> first | exact hanswer | exact absurd rfl hq
      rw [hworld]
  · refine ⟨session, hbooks.congr (fun _ _ _ => taken_congr htaken) (fun p offset j _ => ?_) ?_⟩
    · rw [acknowledged_iff, acknowledged_iff, hlog]
    · cases q with
      | ack =>
        obtain ⟨-, storeFails, consumer, hack, hworld⟩ := hpanic
        by_cases htopic : topic = m.topic
        · subst htopic
          rw [hworld, Function.update_self]
          exact .inr (ack_panics hack)
        · exact .inl (by rw [hworld, Function.update_of_ne htopic])
      | panic =>
        have hworld : s'.world = s.world := hpanic
        exact .inl (by rw [hworld])
      | _ => exact hpanic.elim
  · refine ⟨session, hbooks.congr (fun _ _ _ => taken_congr htaken) (fun p offset j _ => ?_)
      (.inl (by rw [hworld]))⟩
    rw [acknowledged_iff, acknowledged_iff, hlog]

end Steps

theorem books {messages : List BorrowedMessage}
    (increasing : (kafkaReader json sender taskLimit topics).Increasing messages) {s : ListenState}
    (h : (kafkaListen json sender taskLimit).Reachable messages (fun _ => .initial) s) (topic : String) :
    ∃ session, Books s topic session := by
  have hall : ∀ topic, ∃ session, Books s topic session :=
    Consumer.invariant (C := kafkaListen json sender taskLimit)
      (P := fun s => ∀ topic, ∃ session, Books s topic session)
      (fun topic => ⟨_, Books.start messages topic⟩)
      (fun _ _ hr hb hstep => Books.step increasing (Consumer.sound hr) hb hstep) h
  exact hall topic

/-- **What the service has stored covers only messages that went through the message router.** -/
theorem kafkaReader_guarantees (json : SerdeJson) (sender : ReportSender) (taskLimit : ℕ)
    (topics : List String) :
    (kafkaReader json sender taskLimit topics).Guarantees (Settled json sender) where
  mono _ _ more h := h.mono more
  stored := by
    rintro messages s ⟨topic, p⟩ o - increasing reachable stored
    obtain ⟨session, hbooks⟩ := books increasing reachable topic
    have hs := Consumer.sound reachable
    have hprefix : (kafkaReader json sender taskLimit topics).Increasing s.taken :=
      (List.pairwise_append.mp (hs.source.symm ▸ increasing)).1
    have htracks := hbooks.tracks p
    have hstored : (session.partition topic p).stored = some o := by
      rw [← stored]
      show session.consumer.stored[p]? = (s.world topic).stored[p]?
      rw [hbooks.stored]
    constructor
    · intro i m hi hpartition hle
      obtain ⟨rfl, rfl⟩ := Prod.mk.inj hpartition
      have htaken : Taken s m.topic m.partition m.offset i := ⟨m, hi, rfl, rfl, rfl⟩
      have hcovered : m.offset ∈ Acknowledgement.covered (session.partition m.topic m.partition).stored
          (session.partition m.topic m.partition).added :=
        Acknowledgement.mem_covered.mpr ⟨(hbooks.added _ _).mpr ⟨i, htaken⟩, o, hstored, hle⟩
      rw [htracks.stored] at hcovered
      obtain ⟨j, hj, hacked⟩ :=
        (hbooks.acked _ _).mp (Acknowledgement.acked_of_mem_ackedPrefix hcovered)
      rw [taken_inj hprefix hj htaken] at hacked
      obtain ⟨a, ha⟩ := acknowledged_iff.mp hacked
      obtain ⟨t₁, t₂, next, hlog, htrace⟩ := hs.before (hs.taken_message hi) ha
      rw [hlog]
      exact (settled_of_ack htrace).1.mono _
    · obtain ⟨x, hx, hle⟩ := htracks.bound o hstored
      obtain ⟨i, m, hi, rfl, rfl, rfl⟩ := (hbooks.added p x).mp hx
      exact ⟨m, List.mem_of_getElem? hi, rfl, hle⟩

end CommonDataLayer.CommandService
