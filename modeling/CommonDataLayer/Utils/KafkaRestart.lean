import Mathlib.Logic.Function.Basic
import CommonDataLayer.Utils.KafkaBookkeeping

/-! # Restarting a Kafka consumer

Runs of the acknowledgement queues of a `CommonConsumer`, over all partitions of its topic. The
offset given to `store_offsets` is committed as it is, and after a restart the group reads each
partition from the committed offset on (from the start, as `auto.offset.reset` says, when nothing
was committed).

* `partition_step`: on every partition, a run is one of its `KafkaPartitionAckQueue`.
* `resumes_iff`: what is stored is the last offset of the acknowledged prefix, and that message
  comes again, unless the message after it was already known and there is a gap between the two.
-/
namespace CommonDataLayer.KafkaConsumer
open Acknowledgement TransitionSystem MessagingSystem KafkaPartitionAckQueue
set_option autoImplicit false

/-- The consumer, and for each partition the offsets that were consumed and acknowledged. -/
structure Session where
  consumer : KafkaConsumer
  added : ℕ → List ℤ
  acked : ℕ → List ℤ

inductive Use where
  | add (message : BorrowedMessage)
  | ack (message : BorrowedMessage)

def Use.message : Use → BorrowedMessage
  | .add message => message
  | .ack message => message

def Use.operation : Use → KafkaPartitionAckQueue.Operation
  | .add message => .add message.offset
  | .ack message => .ack message.offset

namespace Session

def initial : Session := { consumer := .initial, added := fun _ => [], acked := fun _ => [] }

def add (s : Session) (message : BorrowedMessage) : Session where
  consumer := s.consumer.add message
  added := Function.update s.added message.partition (s.added message.partition ++ [message.offset])
  acked := s.acked

def ack (s : Session) (message : BorrowedMessage) (consumer : KafkaConsumer) : Session where
  consumer := consumer
  added := s.added
  acked := Function.update s.acked message.partition (message.offset :: s.acked message.partition)

/-- `log` says what the partitions hold, from the offsets on at which the consumer has started. -/
inductive Step (topic : String) (log : ℕ → List ℤ) : Session → Use → Session → Prop where
  | add {s : Session} {message : BorrowedMessage} (subscribed : message.topic = topic)
      (next : s.added message.partition ++ [message.offset] <+: log message.partition) :
      Step topic log s (.add message) (s.add message)
  | ack {s : Session} {message : BorrowedMessage} {consumer : KafkaConsumer} {storeFails : Bool}
      (added : message.offset ∈ s.added message.partition)
      (once : message.offset ∉ s.acked message.partition)
      (returns : s.consumer.ack message storeFails = .returns consumer) :
      Step topic log s (.ack message) (s.ack message consumer)

/-- What the partitions deliver after a restart is what lies behind their acknowledged prefix. -/
def Resumes (log : ℕ → List ℤ) (s : Session) : Prop :=
  ∀ p, readFrom s.consumer.stored[p]? (log p) =
    (log p).drop (ackedPrefix (s.acked p) (s.added p)).length

/-- The message after the acknowledged prefix is known, and not the one with the next offset. -/
def BeforeGap (acked added : List ℤ) : Prop :=
  ∃ last ∈ (ackedPrefix acked added).getLast?, ∃ next ∈ (waiting acked added).head?, last + 1 < next

/-- When the first waiting message is acknowledged, the prefix ends before a gap. -/
def AcksBeforeGap (s : Session) : Use → Prop
  | .add _ => True
  | .ack message =>
    let acked := s.acked message.partition
    let added := s.added message.partition
    (waiting acked added).head? = some message.offset → BeforeGap (message.offset :: acked) added

/-! ## One partition of a run -/

/-- A partition as its queue sees it. -/
def partition (topic : String) (s : Session) (p : ℕ) : Tracked where
  queue := (s.consumer.queue[p]?).getD (.new topic p)
  stored := s.consumer.stored[p]?
  added := s.added p
  acked := s.acked p

variable {topic : String} {log : ℕ → List ℤ} {s s' : Session} {use : Use} {p : ℕ}

/-- The partition of the message takes the step of its queue. -/
theorem partition_step (hsorted : ∀ p, (log p).Pairwise (· < ·)) (h : Step topic log s use s') :
    Tracked.Step (s.partition topic use.message.partition) use.operation
      (s'.partition topic use.message.partition) := by
  cases h with
  | @add message subscribed next =>
    have hbelow : ∀ x ∈ s.added message.partition, x < message.offset := by
      intro x hx
      have hpairs := List.pairwise_append.mp ((hsorted message.partition).sublist next.sublist)
      exact hpairs.2.2 x hx _ (List.mem_singleton_self _)
    have hafter : (s.add message).partition topic message.partition =
        (s.partition topic message.partition).add message.offset := by
      simp [partition, Session.add, Tracked.add, KafkaConsumer.add, subscribed]
    show Tracked.Step (s.partition topic message.partition) (.add message.offset) _
    rw [Use.message, hafter]
    exact Tracked.Step.add hbelow
  | @ack message consumer storeFails added once returns =>
    obtain ⟨queue, hqueue, ⟨queue', hack, rfl⟩ | ⟨queue', o, hack, rfl⟩⟩ := ack_returns returns
    · have hreturns : (s.partition topic message.partition).queue.ack message.offset = .marked queue' := by
        simpa [partition, hqueue] using hack
      have hstep := Tracked.Step.marks (s := s.partition topic message.partition) added once hreturns
      simpa [partition, Session.ack, Tracked.ack, Use.message, Use.operation] using hstep
    · have hreturns : (s.partition topic message.partition).queue.ack message.offset = .stores queue' o := by
        simpa [partition, hqueue] using hack
      have hstep := Tracked.Step.stores (s := s.partition topic message.partition) added once hreturns
      simpa [partition, Session.ack, Tracked.ack, Use.message, Use.operation] using hstep

/-- Nothing happens to the other partitions. -/
theorem partition_frame (h : Step topic log s use s') (hp : p ≠ use.message.partition) :
    s'.partition topic p = s.partition topic p := by
  cases h with
  | @add message subscribed next =>
    have hne : p ≠ message.partition := hp
    simp [partition, Session.add, KafkaConsumer.add, Std.ExtTreeMap.getElem?_insert, hne, hne.symm]
  | @ack message consumer storeFails added once returns =>
    have hne : p ≠ message.partition := hp
    obtain ⟨queue, hqueue, ⟨queue', hack, rfl⟩ | ⟨queue', o, hack, rfl⟩⟩ := ack_returns returns <;>
      simp [partition, Session.ack, Std.ExtTreeMap.getElem?_insert, hne, hne.symm]

/-! ## What is read again -/

section Partition
variable {t t' : Tracked} {offset last o : ℤ} {partitionLog : List ℤ}

/-- The stored offset lies between the acknowledged prefix and the rest of the log. -/
theorem readFrom_iff (h : t.Tracks) (hlog : t.added <+: partitionLog)
    (hsorted : partitionLog.Pairwise (· < ·)) (ho : t.stored = some o)
    (hlast : (ackedPrefix t.acked t.added).getLast? = some last) :
    readFrom t.stored partitionLog =
      partitionLog.drop (ackedPrefix t.acked t.added).length ↔ last < o := by
  obtain ⟨front, hfront⟩ := List.getLast?_eq_some_iff.mp hlast
  obtain ⟨tail, htail⟩ : ackedPrefix t.acked t.added <+: t.added := List.takeWhile_prefix _
  obtain ⟨future, rfl⟩ := hlog
  have hcovered := h.stored
  have haddedSorted := h.sorted
  rw [ho] at hcovered
  rw [← htail] at haddedSorted
  have hfuture := (List.pairwise_append.mp hsorted).2.2
  have htailAbove := (List.pairwise_append.mp haddedSorted).2.2
  have hprefixSorted := (List.pairwise_append.mp haddedSorted).1
  rw [hfront] at hprefixSorted
  have hbelow : ∀ x ∈ front, x < last := fun x hx =>
    (List.pairwise_append.mp hprefixSorted).2.2 x hx last (List.mem_singleton_self last)
  have hsplit : t.added ++ future = front ++ last :: (tail ++ future) := by
    rw [← htail, hfront]
    simp
  have hdrop : (t.added ++ future).drop (ackedPrefix t.acked t.added).length = tail ++ future := by
    rw [hsplit, hfront]
    simp [List.drop_append]
  have hle : last ≤ o := by
    have hmem : last ∈ covered (some o) t.added := by simp [hcovered, hfront]
    simpa using (mem_covered.mp hmem).2
  rw [hdrop, hsplit, ho]
  refine readFrom_append_iff hbelow hle fun x hx => ?_
  by_contra hlt
  rcases List.mem_append.mp hx with hx | hx
  · have hxadded : x ∈ t.added := htail ▸ List.mem_append_right _ hx
    have hxcovered : x ∈ covered (some o) t.added := mem_covered.mpr ⟨hxadded, o, rfl, by omega⟩
    rw [hcovered] at hxcovered
    have hself := htailAbove x hxcovered x hx
    omega
  · obtain ⟨y, hy, hbound⟩ := h.bound o ho
    have hyx := hfuture y hy x hx
    omega

/-- After the first waiting message was acknowledged. -/
theorem readFrom_ack_iff (h : t.Tracks) (hstep : Tracked.Step t (.ack offset) t')
    (hfirst : (waiting t.acked t.added).head? = some offset) (hlog : t.added <+: partitionLog)
    (hsorted : partitionLog.Pairwise (· < ·)) :
    readFrom t'.stored partitionLog =
        partitionLog.drop (ackedPrefix t'.acked t'.added).length ↔
      BeforeGap t'.acked t'.added := by
  have hafter := h.step hstep
  have hmem := mem_ackedPrefix_of_waiting hfirst
  obtain ⟨rest, hlist⟩ := List.head?_eq_some_iff.mp (h.waitingList ▸ hfirst)
  cases hstep with
  | @marks offset queue hadded once returns =>
    rw [ack_front hlist] at returns
    cases returns
  | @stores offset o queue hadded once returns =>
    have hadded' : (t.ack offset queue (some o)).added = t.added := rfl
    have hacked' : (t.ack offset queue (some o)).acked = offset :: t.acked := rfl
    have hlist' : rest = waiting (offset :: t.acked) t.added := by
      rw [h.waiting_cons, hlist, List.erase_cons_head]
    obtain ⟨last, hlast⟩ : ∃ last, (ackedPrefix (offset :: t.acked) t.added).getLast? = some last :=
      ⟨_, List.getLast?_eq_some_getLast (List.ne_nil_of_mem hmem)⟩
    rw [ack_front hlist, AckResult.stores.injEq] at returns
    rw [readFrom_iff hafter hlog hsorted rfl hlast]
    simp only [BeforeGap, hadded', hacked', hlast, ← hlist', Option.mem_def, Option.some.injEq,
      exists_eq_left']
    cases rest with
    | nil =>
      have hall := ackedPrefix_eq_self (waiting_eq_nil.mp hlist'.symm)
      have hmark : o = t.queue.lastOffset := by simpa [h.last offset hadded] using returns.2.symm
      have hend := h.getLast? (List.ne_nil_of_mem hadded)
      rw [hall, hend, Option.some.injEq] at hlast
      simp [hmark, hlast]
    | cons next rest =>
      have hmark : o = next - 1 := by simpa using returns.2.symm
      simp only [hmark, List.head?_cons, Option.some.injEq, exists_eq_left']
      omega

/-- Another step leaves what is read again as it was. -/
theorem same_of_not_first {op : KafkaPartitionAckQueue.Operation} (h : t.Tracks)
    (hstep : Tracked.Step t op t')
    (hfirst : ∀ x, op = .ack x → (waiting t.acked t.added).head? ≠ some x) :
    t'.stored = t.stored ∧ ackedPrefix t'.acked t'.added = ackedPrefix t.acked t.added := by
  cases hstep with
  | @add offset increasing =>
    have hfresh : offset ∉ t.acked := fun hmem => lt_irrefl _ (increasing offset (h.acked offset hmem))
    exact ⟨rfl, ackedPrefix_append hfresh⟩
  | @stores offset o queue hadded once returns =>
    obtain ⟨rest, hlist, -, -⟩ := stores_cases (h.waits hadded once) returns
    exact absurd (by rw [← h.waitingList, hlist]; rfl) (hfirst offset rfl)
  | @marks offset queue hadded once returns =>
    obtain ⟨front, rest, hlist, hfront, -⟩ := marked_cases (h.waits hadded once) returns
    have hhead : (waiting t.acked t.added).head? = some front := by rw [← h.waitingList, hlist]; rfl
    exact ⟨rfl, ackedPrefix_cons h.sorted hhead (Ne.symm hfront)⟩

end Partition

/-! ## Every run -/

structure Good (topic : String) (log : ℕ → List ℤ) (s : Session) : Prop where
  tracks : ∀ p, (s.partition topic p).Tracks
  taken : ∀ p, s.added p <+: log p
  resumes : Resumes log s

theorem good_initial (topic : String) (log : ℕ → List ℤ) : Good topic log initial where
  tracks p := by
    have h := Tracked.tracks_initial topic p
    simpa [partition, initial, KafkaConsumer.initial, Tracked.initial] using h
  taken p := List.nil_prefix
  resumes p := by simp [initial, KafkaConsumer.initial, readFrom, ackedPrefix]

theorem Good.tracks_step (hsorted : ∀ p, (log p).Pairwise (· < ·)) (hgood : Good topic log s)
    (hstep : Step topic log s use s') (p : ℕ) : (s'.partition topic p).Tracks := by
  by_cases hp : p = use.message.partition
  · rw [hp]
    exact (hgood.tracks _).step (partition_step hsorted hstep)
  · rw [partition_frame hstep hp]
    exact hgood.tracks p

theorem Good.taken_step (hgood : Good topic log s) (hstep : Step topic log s use s') (p : ℕ) :
    s'.added p <+: log p := by
  cases hstep with
  | @add message subscribed next =>
    by_cases hp : p = message.partition
    · subst hp
      simpa [Session.add] using next
    · simpa [Session.add, hp] using hgood.taken p
  | ack added once returns => exact hgood.taken p

/-- After a step the partitions still resume behind their prefix exactly when it met the
condition. -/
theorem resumes_step_iff (hsorted : ∀ p, (log p).Pairwise (· < ·)) (hgood : Good topic log s)
    (hstep : Step topic log s use s') : Resumes log s' ↔ AcksBeforeGap s use := by
  have hown := partition_step hsorted hstep
  have htracks := hgood.tracks use.message.partition
  have hothers : ∀ p, p ≠ use.message.partition → readFrom s'.consumer.stored[p]? (log p) =
      (log p).drop (ackedPrefix (s'.acked p) (s'.added p)).length := by
    intro p hp
    have hframe := partition_frame hstep hp
    simp only [partition, Tracked.mk.injEq] at hframe
    obtain ⟨-, hstored, hadded, hacked⟩ := hframe
    rw [hstored, hadded, hacked]
    exact hgood.resumes p
  have hreduce : Resumes log s' ↔ readFrom (s'.partition topic use.message.partition).stored
      (log use.message.partition) = (log use.message.partition).drop
        (ackedPrefix (s'.partition topic use.message.partition).acked
          (s'.partition topic use.message.partition).added).length := by
    refine ⟨fun h => h _, fun h p => ?_⟩
    by_cases hp : p = use.message.partition
    · rw [hp]
      exact h
    · exact hothers p hp
  rw [hreduce]
  by_cases hfirst : ∃ x, use.operation = .ack x ∧
      (waiting (s.partition topic use.message.partition).acked
        (s.partition topic use.message.partition).added).head? = some x
  · obtain ⟨x, hop, hhead⟩ := hfirst
    rw [hop] at hown
    rw [readFrom_ack_iff htracks hown hhead (hgood.taken _) (hsorted _)]
    cases hstep with
    | add subscribed next => cases hop
    | @ack message consumer storeFails added once returns =>
      cases hop
      have hacked : ((s.ack message consumer).partition topic message.partition).acked =
          message.offset :: s.acked message.partition := by simp [partition, Session.ack]
      have hhead : (waiting (s.acked message.partition) (s.added message.partition)).head? =
          some message.offset := hhead
      simp only [AcksBeforeGap, hhead, true_implies, Use.message, hacked]
      rfl
  · obtain ⟨hstored, hprefix⟩ := same_of_not_first htracks hown
      fun x hop hhead => hfirst ⟨x, hop, hhead⟩
    rw [hstored, hprefix]
    refine iff_of_true (hgood.resumes _) ?_
    cases hstep with
    | add subscribed next => trivial
    | ack added once returns => exact fun hhead => absurd ⟨_, rfl, hhead⟩ hfirst

/-- In a run all restarts resume right after the acknowledged prefixes exactly when every
acknowledgement of a first waiting message completes a prefix that ends before a gap. -/
theorem resumes_iff (hsorted : ∀ p, (log p).Pairwise (· < ·))
    {ts : List (Transition Session Use)} (hrun : Run (Step topic log) initial ts s) :
    (∀ s ∈ states initial ts, Resumes log s) ↔ ∀ t ∈ ts, AcksBeforeGap t.before t.label :=
  hrun.states_iff (good_initial topic log) (fun _ h => h.resumes)
    (fun _ _ _ h hstep hok =>
      { tracks := h.tracks_step hsorted hstep
        taken := h.taken_step hstep
        resumes := (resumes_step_iff hsorted h hstep).mpr hok })
    fun _ _ _ h hstep hnot hresumes => hnot ((resumes_step_iff hsorted h hstep).mp hresumes)

def sampleMessage (offset : ℤ) : BorrowedMessage :=
  { topic := "input", partition := 0, offset := offset, key := none, payload := none }

/-- With a gap after the only acknowledged message, no message comes twice. -/
theorem resumes_gap : ∃ ts s, Run (Step "input" fun _ => [5, 7]) initial ts s ∧
    s.consumer.stored[0]? = some 6 ∧ ∀ s ∈ states initial ts, Resumes (fun _ => [5, 7]) s := by
  let first := initial.add (sampleMessage 5)
  let second := first.add (sampleMessage 7)
  let consumer : KafkaConsumer :=
    { second.consumer with
      queue := second.consumer.queue.insert 0 ⟨[7], "input", 0, 7⟩,
      stored := second.consumer.stored.insert 0 6 }
  have hack : second.consumer.ack (sampleMessage 5) false = .returns consumer := by rfl
  have hadd : Step "input" (fun _ => [5, 7]) initial (.add (sampleMessage 5)) first :=
    .add rfl (by decide)
  have hnext : Step "input" (fun _ => [5, 7]) first (.add (sampleMessage 7)) second :=
    .add rfl (by decide)
  have hacked : Step "input" (fun _ => [5, 7]) second (.ack (sampleMessage 5))
      (second.ack (sampleMessage 5) consumer) := .ack (by decide) (by decide) hack
  have hrun := ((Run.start.step hadd).step hnext).step hacked
  refine ⟨_, _, hrun, rfl, (resumes_iff (fun _ => by decide) hrun).mpr ?_⟩
  have hgap : AcksBeforeGap second (.ack (sampleMessage 5)) := fun _ => ⟨5, rfl, 7, rfl, by decide⟩
  intro t ht
  simp only [List.nil_append, List.cons_append, List.mem_cons, List.not_mem_nil, or_false] at ht
  obtain rfl | rfl | rfl := ht
  · trivial
  · trivial
  · exact hgap

/-- The first message of a partition, acknowledged alone, comes again. -/
theorem acked_message_redelivered : ¬ ∀ (topic : String) (log : ℕ → List ℤ),
    (∀ p, (log p).Pairwise (· < ·)) → ∀ ts s, Run (Step topic log) initial ts s →
      ∀ s ∈ states initial ts, Resumes log s := by
  intro h
  let first := initial.add (sampleMessage 0)
  let consumer : KafkaConsumer :=
    { first.consumer with
      queue := first.consumer.queue.insert 0 ⟨[], "input", 0, 0⟩,
      stored := first.consumer.stored.insert 0 0 }
  have hack : first.consumer.ack (sampleMessage 0) false = .returns consumer := by rfl
  have hadd : Step "input" (fun _ => [0, 1]) initial (.add (sampleMessage 0)) first :=
    .add rfl (by decide)
  have hacked : Step "input" (fun _ => [0, 1]) first (.ack (sampleMessage 0))
      (first.ack (sampleMessage 0) consumer) := .ack (by decide) (by decide) hack
  have hrun := (Run.start.step hadd).step hacked
  have hresumes := h "input" (fun _ => [0, 1]) (fun _ => by decide) _ _ hrun _ hrun.last_mem_states 0
  have hstored : consumer.stored[0]? = some 0 := by rfl
  have hread : readFrom consumer.stored[0]? [0, 1] = [0, 1] := by rw [hstored]; decide
  have hdrop : ([0, 1] : List ℤ).drop (ackedPrefix [0] [0]).length = [1] := by decide
  exact absurd (hread.symm.trans (hresumes.trans hdrop)) (by decide)

end Session
end CommonDataLayer.KafkaConsumer
