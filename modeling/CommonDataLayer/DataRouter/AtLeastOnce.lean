import CommonDataLayer.Foundations.TaskPool
import CommonDataLayer.Utils.KafkaAckQueue
import CommonDataLayer.DataRouter.Delivery

/-! # The router consuming from Kafka

The loop of `main` over the stream of a Kafka consumer. Taking a message enters its offset in the
acknowledgement queue of its partition; the message's task calls `ack` on that queue. The clock,
the registry, the cache and the broker may answer anything, at any time.

`Bookkeeping` is the invariant. Until a panic poisons the mutex, the waiting list of a partition
holds the offsets of its taken messages that are not acknowledged, in increasing order. Therefore
an offset is stored only when every taken message up to it has been acknowledged, and with
`delivered_of_ack` every message up to a stored offset has been delivered (`stored_delivered`).
-/
namespace CommonDataLayer.DataRouter
open Interaction MessagingSystem
set_option autoImplicit false

def kafkaHost : Host BorrowedMessage Answer where
  World := KafkaConsumer
  take message consumer consumer' :=
    consumer.poisoned = false ∧ consumer' = consumer.add message
  takeAborts _ consumer := consumer.poisoned = true
  answer message call consumer a consumer' := match call, a with
    | .ack, a => a = .ok () ∧ consumer.poisoned = false ∧
        ∃ storeFails, consumer.ack message storeFails = .returns consumer'
    | _, _ => consumer' = consumer
  panics message call consumer consumer' := match call with
    | .ack => consumer.poisoned = false ∧
        ∃ storeFails, consumer.ack message storeFails = .panics consumer'
    | _ => False
  aborts _ call consumer := match call with
    | .abort => True
    | .ack => consumer.poisoned = true
    | _ => False

/-- The loop of `main`; an error of the stream is logged and the loop goes on. -/
def kafkaRouter (json : SerdeJson) (config : Config) (taskLimit : ℕ) :
    Consumer BorrowedMessage Answer where
  toHost := kafkaHost
  limit := taskLimit
  body message := spawnedTask json config (kafkaCommunicationMessage message)
  fetchErrorAborts := false

theorem body_kafkaRouter (json : SerdeJson) (config : Config) (taskLimit : ℕ) (message : BorrowedMessage) :
    (kafkaRouter json config taskLimit).body message =
      handleMessage json config (kafkaCommunicationMessage message) := rfl

/-- The offsets of every partition strictly increase. -/
def OffsetsIncrease (messages : List BorrowedMessage) : Prop :=
  messages.Pairwise fun m n => m.partition = n.partition → m.offset < n.offset

abbrev RouterState : Type := Pool BorrowedMessage Answer KafkaConsumer

def Acked (s : RouterState) (i : ℕ) : Prop := ∃ a, (i, (⟨.ack, a⟩ : Event Answer)) ∈ s.log

def waitingList (consumer : KafkaConsumer) (partition : ℕ) : List ℤ :=
  (consumer.queue[partition]?.map (·.waitingList)).getD []

/-- Message `i` was taken from the partition with this offset. -/
def Taken (s : RouterState) (partition : ℕ) (offset : ℤ) (i : ℕ) : Prop :=
  ∃ m, s.taken[i]? = some m ∧ m.partition = partition ∧ m.offset = offset

structure Bookkeeping (s : RouterState) : Prop where
  sorted : s.world.poisoned = false → ∀ p, (waitingList s.world p).Pairwise (· < ·)
  waiting : s.world.poisoned = false → ∀ p offset,
    offset ∈ waitingList s.world p ↔ ∃ i, Taken s p offset i ∧ ¬ Acked s i
  last : s.world.poisoned = false → ∀ p queue, s.world.queue[p]? = some queue →
    ∃ i, Taken s p queue.lastOffset i
  stored : ∀ p o, s.world.stored[p]? = some o →
    (∀ i offset, Taken s p offset i → offset ≤ o → Acked s i) ∧
      ∃ i offset, Taken s p offset i ∧ o ≤ offset

variable {json : SerdeJson} {config : Config} {taskLimit : ℕ} {messages : List BorrowedMessage}

/-! ## Offsets and messages -/

section Offsets
variable {s s' : RouterState}

theorem taken_inj (increasing : OffsetsIncrease s.taken) {p : ℕ} {offset : ℤ} {i j : ℕ}
    (hi : Taken s p offset i) (hj : Taken s p offset j) : i = j := by
  obtain ⟨m, hm, hmp, hmo⟩ := hi
  obtain ⟨n, hn, hnp, hno⟩ := hj
  obtain ⟨hil, rfl⟩ := List.getElem?_eq_some_iff.mp hm
  obtain ⟨hjl, rfl⟩ := List.getElem?_eq_some_iff.mp hn
  rcases Nat.lt_trichotomy i j with h | h | h
  · have := List.pairwise_iff_getElem.mp increasing i j hil hjl h (by omega)
    omega
  · exact h
  · have := List.pairwise_iff_getElem.mp increasing j i hjl hil h (by omega)
    omega

theorem taken_append {m : BorrowedMessage} (h : s'.taken = s.taken ++ [m]) {p : ℕ} {offset : ℤ}
    {i : ℕ} : Taken s' p offset i ↔
      Taken s p offset i ∨ i = s.taken.length ∧ m.partition = p ∧ m.offset = offset := by
  unfold Taken
  rw [h]
  rcases Nat.lt_trichotomy i s.taken.length with hlt | rfl | hgt
  · rw [List.getElem?_append_left hlt]
    simp only [Nat.ne_of_lt hlt, false_and, or_false]
  · simp
  · rw [List.getElem?_eq_none (by simp; omega), List.getElem?_eq_none (by omega)]
    simp only [reduceCtorEq, false_and, exists_false, Nat.ne_of_gt hgt, or_self]

theorem taken_congr (h : s'.taken = s.taken) {p : ℕ} {offset : ℤ} {i : ℕ} :
    Taken s' p offset i ↔ Taken s p offset i := by
  simp only [Taken, h]

theorem acked_congr (h : s'.log = s.log) {i : ℕ} : Acked s' i ↔ Acked s i := by
  simp only [Acked, h]

theorem acked_append {q : Call} {a : Answer q} {i : ℕ} (h : s'.log = s.log ++ [(i, ⟨q, a⟩)])
    (j : ℕ) : Acked s' j ↔ Acked s j ∨ j = i ∧ q = .ack := by
  unfold Acked
  rw [h]
  constructor
  · rintro ⟨b, hb⟩
    rcases List.mem_append.mp hb with hb | hb
    · exact .inl ⟨b, hb⟩
    · have heq := List.mem_singleton.mp hb
      simp only [Prod.mk.injEq, Sigma.mk.injEq] at heq
      exact .inr ⟨heq.1, heq.2.1.symm⟩
  · rintro (⟨b, hb⟩ | ⟨rfl, rfl⟩)
    · exact ⟨b, List.mem_append_left _ hb⟩
    · exact ⟨a, by simp⟩

end Offsets

/-! ## The queue under one step -/

section Queue
variable {consumer consumer' : KafkaConsumer} {m : BorrowedMessage}

theorem waitingList_add (p : ℕ) : waitingList (consumer.add m) p =
    if m.partition = p then waitingList consumer p ++ [m.offset] else waitingList consumer p :=
  KafkaConsumer.waitingList_add consumer m p

theorem ack_panics {storeFails : Bool} (h : consumer.ack m storeFails = .panics consumer') :
    consumer'.poisoned = true ∧ consumer'.stored = consumer.stored := by
  unfold KafkaConsumer.ack at h
  split at h
  · cases h; exact ⟨rfl, rfl⟩
  · split at h
    · cases h; exact ⟨rfl, rfl⟩
    · cases h
    · cases h
    · split at h
      · cases h; exact ⟨rfl, rfl⟩
      · cases h

end Queue

/-! ## What the steps preserve -/

section Steps
variable {s s' : RouterState}

theorem Bookkeeping.start : Bookkeeping (Pool.start messages KafkaConsumer.initial) where
  sorted := by simp [Pool.start, KafkaConsumer.initial, waitingList]
  waiting := by
    simp [Pool.start, KafkaConsumer.initial, waitingList, Taken, Pool.taken]
  last := by simp [Pool.start, KafkaConsumer.initial]
  stored := by simp [Pool.start, KafkaConsumer.initial]

theorem Bookkeeping.congr (h : Bookkeeping s) (htaken : s'.taken = s.taken)
    (hacked : ∀ i, Acked s' i ↔ Acked s i) (hworld : s'.world = s.world) : Bookkeeping s' where
  sorted := by rw [hworld]; exact h.sorted
  waiting := by simpa only [hworld, taken_congr htaken, hacked] using h.waiting
  last := by simpa only [hworld, taken_congr htaken] using h.last
  stored := by simpa only [hworld, taken_congr htaken, hacked] using h.stored

theorem Bookkeeping.panic (h : Bookkeeping s) (htaken : s'.taken = s.taken)
    (hlog : s'.log = s.log) (hpoisoned : s'.world.poisoned = true)
    (hstored : s'.world.stored = s.world.stored) : Bookkeeping s' where
  sorted := by simp [hpoisoned]
  waiting := by simp [hpoisoned]
  last := by simp [hpoisoned]
  stored := by simpa only [hstored, taken_congr htaken, acked_congr hlog] using h.stored

/-- A message that enters its queue comes after all the messages of its partition. -/
theorem Bookkeeping.take (h : Bookkeeping s) {m : BorrowedMessage}
    (htaken : s'.taken = s.taken ++ [m]) (hlog : s'.log = s.log)
    (hpoisoned : s.world.poisoned = false) (hworld : s'.world = s.world.add m)
    (hnew : ¬ Acked s s.taken.length)
    (hlast : ∀ i offset, Taken s m.partition offset i → offset < m.offset) : Bookkeeping s' where
  sorted := by
    intro _ p
    rw [hworld, waitingList_add]
    split
    · rename_i hp
      subst hp
      refine List.pairwise_append.mpr ⟨h.sorted hpoisoned _, List.pairwise_singleton _ _, ?_⟩
      intro offset hoffset _ hm
      obtain ⟨i, hi, _⟩ := (h.waiting hpoisoned _ _).mp hoffset
      rw [List.mem_singleton.mp hm]
      exact hlast i offset hi
    · exact h.sorted hpoisoned p
  waiting := by
    intro _ p offset
    rw [hworld, waitingList_add]
    simp only [taken_append htaken, acked_congr hlog]
    split
    · rename_i hp
      rw [List.mem_append, List.mem_singleton, h.waiting hpoisoned]
      constructor
      · rintro (⟨i, hi, ha⟩ | rfl)
        · exact ⟨i, .inl hi, ha⟩
        · exact ⟨_, .inr ⟨rfl, hp, rfl⟩, hnew⟩
      · rintro ⟨i, hi | ⟨rfl, _, rfl⟩, ha⟩
        · exact .inl ⟨i, hi, ha⟩
        · exact .inr rfl
    · rename_i hp
      rw [h.waiting hpoisoned]
      simp only [hp, false_and, and_false, or_false]
  last := by
    intro _ p queue hqueue
    rw [hworld] at hqueue
    simp only [KafkaConsumer.add, Std.ExtTreeMap.getElem?_insert, Std.compare_eq_iff_eq] at hqueue
    split at hqueue
    · rename_i hp
      simp only [Option.some.injEq] at hqueue
      subst hqueue
      exact ⟨_, (taken_append htaken).mpr (.inr ⟨rfl, hp, rfl⟩)⟩
    · obtain ⟨i, hi⟩ := h.last hpoisoned p queue hqueue
      exact ⟨i, (taken_append htaken).mpr (.inl hi)⟩
  stored := by
    intro p o ho
    rw [hworld] at ho
    obtain ⟨hacked, i, offset, hi, hle⟩ := h.stored p o ho
    refine ⟨?_, i, offset, (taken_append htaken).mpr (.inl hi), hle⟩
    intro j offset' hj hle'
    rw [acked_congr hlog]
    rcases (taken_append htaken).mp hj with hj | ⟨_, rfl, rfl⟩
    · exact hacked j offset' hj hle'
    · have := hlast i offset hi
      omega

/-- Task `i` acknowledges its message, which waits in `queue`. -/
structure AckStep (s s' : RouterState) (i : ℕ) (m : BorrowedMessage)
    (queue : KafkaPartitionAckQueue) : Prop where
  taken : s'.taken = s.taken
  acked : ∀ j, Acked s' j ↔ Acked s j ∨ j = i
  message : s.taken[i]? = some m
  fresh : ¬ Acked s i
  running : s.world.poisoned = false
  queue_eq : s.world.queue[m.partition]? = some queue
  removed : s'.world.queue = s.world.queue.insert m.partition
    { queue with waitingList := queue.waitingList.erase m.offset }
  stored : s'.world.stored = s.world.stored ∨
    s'.world.stored = s.world.stored.insert m.partition
      (((queue.waitingList.erase m.offset).head?.map (· - 1)).getD (max queue.lastOffset m.offset))

section Ack
variable {i : ℕ} {m : BorrowedMessage} {queue : KafkaPartitionAckQueue}

theorem AckStep.taken_self (a : AckStep s s' i m queue) : Taken s m.partition m.offset i :=
  ⟨m, a.message, rfl, rfl⟩

theorem AckStep.waitingList_eq (a : AckStep s s' i m queue) :
    waitingList s.world m.partition = queue.waitingList := by
  simp [waitingList, a.queue_eq]

theorem AckStep.sorted (a : AckStep s s' i m queue) (h : Bookkeeping s) :
    queue.waitingList.Pairwise (· < ·) :=
  a.waitingList_eq ▸ h.sorted a.running m.partition

theorem AckStep.waitingList_after (a : AckStep s s' i m queue) (p : ℕ) :
    waitingList s'.world p =
      if m.partition = p then queue.waitingList.erase m.offset else waitingList s.world p := by
  have h := KafkaConsumer.waitingList_insert s.world m.partition p
    { queue with waitingList := queue.waitingList.erase m.offset }
  rw [← a.removed] at h
  exact h

/-- The erased list holds what is still not acknowledged. -/
theorem AckStep.mem_rest (a : AckStep s s' i m queue) (h : Bookkeeping s)
    (increasing : OffsetsIncrease s.taken) (offset : ℤ) :
    offset ∈ queue.waitingList.erase m.offset ↔
      ∃ j, Taken s' m.partition offset j ∧ ¬ Acked s' j := by
  have hnodup : queue.waitingList.Nodup := (a.sorted h).imp fun h => Int.ne_of_lt h
  rw [hnodup.mem_erase_iff, ← a.waitingList_eq, h.waiting a.running]
  simp only [taken_congr a.taken, a.acked, not_or]
  constructor
  · rintro ⟨hne, j, hj, ha⟩
    refine ⟨j, hj, ha, ?_⟩
    rintro rfl
    obtain ⟨m', hm', _, ho⟩ := hj
    rw [a.message] at hm'
    cases hm'
    exact hne ho.symm
  · rintro ⟨j, hj, ha, hne⟩
    refine ⟨?_, j, hj, ha⟩
    rintro rfl
    exact hne (taken_inj increasing hj a.taken_self)

theorem AckStep.mem_other (a : AckStep s s' i m queue) (h : Bookkeeping s) {p : ℕ}
    (hp : m.partition ≠ p) (offset : ℤ) : offset ∈ waitingList s.world p ↔
      ∃ j, Taken s' p offset j ∧ ¬ Acked s' j := by
  rw [h.waiting a.running]
  simp only [taken_congr a.taken, a.acked, not_or]
  refine exists_congr fun j => and_congr_right fun hj => (and_iff_left ?_).symm
  rintro rfl
  obtain ⟨m', hm', hp', _⟩ := hj
  rw [a.message] at hm'
  cases hm'
  exact hp hp'

/-- The offset that an acknowledgement stores is covered: when the list runs empty nothing waits,
otherwise nothing waits before the new front. -/
theorem AckStep.covered (a : AckStep s s' i m queue) (h : Bookkeeping s)
    (increasing : OffsetsIncrease s.taken) {o : ℤ}
    (ho : o = ((queue.waitingList.erase m.offset).head?.map (· - 1)).getD
      (max queue.lastOffset m.offset)) :
    (∀ j offset, Taken s' m.partition offset j → offset ≤ o → Acked s' j) ∧
      ∃ j offset, Taken s' m.partition offset j ∧ o ≤ offset := by
  have hrest := a.mem_rest h increasing
  have hsorted := (a.sorted h).sublist (List.erase_sublist (a := m.offset))
  cases herase : queue.waitingList.erase m.offset with
  | nil =>
    rw [herase] at ho hrest
    simp only [List.head?_nil, Option.map_none, Option.getD_none] at ho
    constructor
    · intro j offset hj _
      by_contra ha
      exact absurd ((hrest offset).mpr ⟨j, hj, ha⟩) List.not_mem_nil
    · obtain ⟨j, hj⟩ := h.last a.running _ queue a.queue_eq
      rcases Int.le_total queue.lastOffset m.offset with hle | hle
      · exact ⟨i, m.offset, (taken_congr a.taken).mpr a.taken_self, by omega⟩
      · exact ⟨j, queue.lastOffset, (taken_congr a.taken).mpr hj, by omega⟩
  | cons front rest =>
    rw [herase] at ho hrest hsorted
    simp only [List.head?_cons, Option.map_some, Option.getD_some] at ho
    constructor
    · intro j offset hj hle
      by_contra ha
      rcases List.mem_cons.mp ((hrest offset).mpr ⟨j, hj, ha⟩) with rfl | hmem
      · omega
      · have := List.rel_of_pairwise_cons hsorted hmem
        omega
    · obtain ⟨j, hj, _⟩ := (hrest front).mp List.mem_cons_self
      exact ⟨j, front, hj, by omega⟩

theorem Bookkeeping.ack (h : Bookkeeping s) (a : AckStep s s' i m queue)
    (increasing : OffsetsIncrease s.taken) : Bookkeeping s' where
  sorted := by
    intro _ p
    rw [a.waitingList_after]
    split
    · exact (a.sorted h).sublist List.erase_sublist
    · exact h.sorted a.running p
  waiting := by
    intro _ p offset
    rw [a.waitingList_after]
    split
    · rename_i hp
      exact hp ▸ a.mem_rest h increasing offset
    · rename_i hp
      exact a.mem_other h hp offset
  last := by
    intro _ p queue' hq
    rw [a.removed, Std.ExtTreeMap.getElem?_insert] at hq
    simp only [taken_congr a.taken]
    split at hq
    · rename_i hp
      cases hq
      exact Std.compare_eq_iff_eq.mp hp ▸ h.last a.running _ queue a.queue_eq
    · exact h.last a.running p queue' hq
  stored := by
    intro p o ho
    have hold : s.world.stored[p]? = some o →
        (∀ j offset, Taken s' p offset j → offset ≤ o → Acked s' j) ∧
          ∃ j offset, Taken s' p offset j ∧ o ≤ offset := by
      intro ho
      obtain ⟨hall, hex⟩ := h.stored p o ho
      simp only [taken_congr a.taken, a.acked]
      exact ⟨fun j offset hj hle => .inl (hall j offset hj hle), hex⟩
    rcases a.stored with hs | hs
    · rw [hs] at ho
      exact hold ho
    · rw [hs, Std.ExtTreeMap.getElem?_insert] at ho
      split at ho
      · rename_i hp
        exact Std.compare_eq_iff_eq.mp hp ▸
          a.covered h increasing (Option.some.inj ho).symm
      · exact hold ho

end Ack

theorem Bookkeeping.step (increasing : OffsetsIncrease messages)
    (hs : (kafkaRouter json config taskLimit).Sound messages s) (h : Bookkeeping s)
    (hstep : (kafkaRouter json config taskLimit).Step s s') : Bookkeeping s' := by
  have hprefix : OffsetsIncrease s.taken :=
    (List.pairwise_append.mp (hs.source.symm ▸ increasing)).1
  rcases hstep.effect with ⟨m, hstream, htaken, hlog, hpoisoned, hworld⟩ |
    ⟨i, m, q, next, a, hpending, htaken, hlog, hanswer⟩ |
    ⟨m, q, htaken, hlog, hpanic⟩ | ⟨htaken, hlog, hworld⟩
  · refine h.take htaken hlog hpoisoned hworld ?_ ?_
    · rintro ⟨a, ha⟩
      have hb := hs.bound _ ha
      simp only [Pool.taken, List.length_append, List.length_map] at hb
      omega
    · rintro i offset ⟨n, hn, hp, rfl⟩
      have hpair := (List.pairwise_append.mp (hs.source.symm ▸ increasing)).2.2
      exact hpair n (List.mem_of_getElem? hn) m (by simp [hstream]) hp
  · have hacked := acked_append hlog
    by_cases hq : q = .ack
    · subst hq
      obtain ⟨-, hpoisoned, storeFails, hack⟩ := hanswer
      have hi := Consumer.taken_of_task hpending
      obtain ⟨rest, htrace, hrest, _⟩ := hs.trace i m _ hpending
      obtain rfl := hrest _ rfl
      have hfresh : ¬ Acked s i := by
        rintro ⟨b, hb⟩
        exact (delivered_of_ack htrace).2 ⟨.ack, b⟩
          (List.mem_filterMap.mpr ⟨(i, ⟨.ack, b⟩), hb, by simp⟩) rfl
      have hmem := (h.waiting hpoisoned _ _).mpr ⟨i, ⟨m, hi, rfl, rfl⟩, hfresh⟩
      obtain ⟨queue, hqueue, _, hremoved, hstored⟩ := KafkaConsumer.ack_of_waiting hmem hack
      exact h.ack ⟨htaken, by simpa using hacked, hi, hfresh, hpoisoned, hqueue, hremoved, hstored⟩
        hprefix
    · refine h.congr htaken (fun j => ?_) ?_
      · simp [hacked, hq]
      · cases q <;> first | exact hanswer | exact absurd rfl hq
  · cases q with
    | ack =>
      obtain ⟨_, storeFails, hack⟩ := hpanic
      exact h.panic htaken hlog (ack_panics hack).1 (ack_panics hack).2
    | _ => exact hpanic.elim
  · exact h.congr htaken (fun i => acked_congr hlog) hworld

end Steps

theorem bookkeeping (increasing : OffsetsIncrease messages) {s : RouterState}
    (h : (kafkaRouter json config taskLimit).Reachable messages .initial s) : Bookkeeping s :=
  Consumer.invariant (C := kafkaRouter json config taskLimit) Bookkeeping.start
    (fun _ _ hr hb hstep => hb.step increasing (Consumer.sound hr) hstep) h

/-! ## At least once -/

/-- **Every message up to a stored offset has been delivered.** -/
theorem stored_delivered (json : SerdeJson) (config : Config) (taskLimit : ℕ)
    (messages : List BorrowedMessage) (increasing : OffsetsIncrease messages) (s : RouterState)
    (reachable : (kafkaRouter json config taskLimit).Reachable messages .initial s)
    (i : ℕ) (m : BorrowedMessage) (o : ℤ) (taken : s.taken[i]? = some m)
    (stored : s.world.stored[m.partition]? = some o) (le : m.offset ≤ o) :
    Delivered json config (kafkaCommunicationMessage m) (s.logOf i) := by
  have hs := Consumer.sound reachable
  obtain ⟨a, ha⟩ := ((bookkeeping increasing reachable).stored m.partition o stored).1 i m.offset
    ⟨m, taken, rfl, rfl⟩ le
  obtain ⟨t₁, t₂, next, hlog, htrace⟩ := hs.before (hs.taken_message taken) ha
  have hdelivered := (delivered_of_ack htrace).1.mono (⟨.ack, a⟩ :: t₂)
  rwa [← hlog] at hdelivered

/-! ## Two messages, acknowledged out of order -/

/-- Only the acknowledgement changes the consumer. -/
theorem answer_kafkaHost {m : BorrowedMessage} {e : Event Answer} (h : e.1 ≠ .ack) (consumer : KafkaConsumer) :
    kafkaHost.answer m e.1 consumer e.2 consumer := by
  obtain ⟨q, a⟩ := e
  cases q with
  | ack => exact absurd rfl h
  | _ => rfl

def batchMessage : BorrowedMessage := ⟨"input", 0, 0, some (.ok "orders"), some (.ok batchText)⟩
def sampleMessage : BorrowedMessage := ⟨"input", 0, 1, some (.ok "orders"), some (.ok sampleText)⟩

def sampleCalls : Trace :=
  [⟨.currentTimestamp, (9 : ℤ)⟩, ⟨.cacheGetMut 0, some "cdl.orders"⟩,
    published "cdl.orders" "orders" (.insert (stamped sampleEntry 9))]

theorem steps_sampleCalls :
    Steps (handleMessage sampleJson sampleConfig (kafkaCommunicationMessage sampleMessage)) sampleCalls
      (finishMessage sampleConfig (.ok ())) :=
  .call (.call (.call (.refl _)))

/-- The calls of a task, its acknowledgement last. -/
def acknowledged (i : ℕ) (t : Trace) : List (ℕ × Event Answer) :=
  t.map (fun e => (i, e)) ++ [(i, ⟨.ack, .ok ()⟩)]

theorem run_acknowledged {s : RouterState} {i : ℕ} {m : BorrowedMessage} {t : Trace} {consumer : KafkaConsumer}
    (running : s.aborted = false) (hi : s.tasks[i]? = some (m, some ((kafkaRouter json config taskLimit).body m)))
    (calls : Steps (handleMessage json config (kafkaCommunicationMessage m)) t (finishMessage config (.ok ())))
    (noAck : ∀ e ∈ t, e.1 ≠ .ack) (free : s.world.poisoned = false)
    (acked : s.world.ack m false = .returns consumer) :
    Relation.ReflTransGen (kafkaRouter json config taskLimit).Step s
      { s with tasks := s.tasks.set i (m, some (.ret ())), log := s.log ++ acknowledged i t,
               world := consumer } := by
  obtain ⟨hlt, -⟩ := List.getElem?_eq_some_iff.mp hi
  have hrun := Consumer.run_task (C := kafkaRouter json config taskLimit) calls running hi
    fun e he => answer_kafkaHost (noAck e he) s.world
  have hack : kafkaHost.answer m .ack s.world (.ok ()) consumer := ⟨rfl, free, false, acked⟩
  have hlast := Consumer.Step.answer (C := kafkaRouter json config taskLimit)
    (s := { s with tasks := s.tasks.set i (m, some (finishMessage config (.ok ()))),
                   log := s.log ++ t.map fun e => (i, e) })
    (q := Call.ack) (a := Except.ok ()) running (List.getElem?_set_self hlt) hack
  have hall := hrun.tail hlast
  simp only [List.set_set, List.append_assoc] at hall
  exact hall

/-- The second message is acknowledged while the first one, a batch with an entry that is refused, is
still on its way. -/
theorem stored_delivered_out_of_order :
    ∃ s : RouterState, (kafkaRouter sampleJson sampleConfig 2).Reachable [batchMessage, sampleMessage] .initial s ∧
      s.log = acknowledged 1 sampleCalls ++ acknowledged 0 batchCalls ∧ s.world.stored[0]? = some 1 ∧
      Delivered sampleJson sampleConfig (kafkaCommunicationMessage batchMessage) (s.logOf 0) ∧
      Delivered sampleJson sampleConfig (kafkaCommunicationMessage sampleMessage) (s.logOf 1) := by
  let C := kafkaRouter sampleJson sampleConfig 2
  let first : KafkaConsumer := .add .initial batchMessage
  let both : KafkaConsumer := first.add sampleMessage
  let marked : KafkaConsumer := { both with queue := both.queue.insert 0 ⟨[0], "input", 0, 1⟩ }
  let done : KafkaConsumer :=
    { marked with queue := marked.queue.insert 0 ⟨[], "input", 0, 1⟩, stored := both.stored.insert 0 1 }
  let batchTask := (batchMessage, some (C.body batchMessage))
  let sampleTask := (sampleMessage, some (C.body sampleMessage))
  have htake : C.Step (Pool.start [batchMessage, sampleMessage] .initial)
      ⟨[sampleMessage], some batchMessage, [], [], first, false⟩ := .take rfl rfl rfl ⟨rfl, rfl⟩
  have hspawn : C.Step ⟨[sampleMessage], some batchMessage, [], [], first, false⟩
      ⟨[sampleMessage], none, [batchTask], [], first, false⟩ := .spawn rfl rfl (by decide)
  have htake' : C.Step ⟨[sampleMessage], none, [batchTask], [], first, false⟩
      ⟨[], some sampleMessage, [batchTask], [], both, false⟩ := .take rfl rfl rfl ⟨rfl, rfl⟩
  have hspawn' : C.Step ⟨[], some sampleMessage, [batchTask], [], both, false⟩
      ⟨[], none, [batchTask, sampleTask], [], both, false⟩ := .spawn rfl rfl (by decide)
  have hmarked : both.ack sampleMessage false = .returns marked := by rfl
  have hstored : marked.ack batchMessage false = .returns done := by rfl
  have hsample := run_acknowledged (s := ⟨[], none, [batchTask, sampleTask], [], both, false⟩) (i := 1) rfl rfl
    steps_sampleCalls (by simp [sampleCalls, published]) rfl hmarked
  have hbatch := run_acknowledged (s := ⟨[], none, [batchTask, (sampleMessage, some (.ret ()))],
    acknowledged 1 sampleCalls, marked, false⟩) (i := 0) rfl rfl steps_batchCalls
    (by simp [batchCalls, published]) rfl hstored
  have hreach : C.Reachable [batchMessage, sampleMessage] .initial _ :=
    ((((Relation.ReflTransGen.single htake).tail hspawn).tail htake').tail hspawn').trans
      (hsample.trans hbatch)
  have hdelivered := stored_delivered sampleJson sampleConfig 2 _
    (List.pairwise_pair.mpr fun _ => by decide) _ hreach
  exact ⟨_, hreach, rfl, rfl, hdelivered 0 batchMessage 1 rfl rfl (by decide),
    hdelivered 1 sampleMessage 1 rfl rfl (by decide)⟩

end CommonDataLayer.DataRouter
