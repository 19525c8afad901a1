import Mathlib.Data.List.Pairwise
import Std.Data.ExtTreeMap.Lemmas
import CommonDataLayer.Utils.MessagingSystem

/-! # Acknowledging Kafka messages out of order

Each partition keeps the offsets that were consumed and not yet acknowledged, in the order in which
they came. Acknowledging the front stores the offset before the new front (the last offset when
the list runs empty); acknowledging another one takes it out of the list.

* `search`: the loop that moves a cursor around the list, from its front on. The cursor passes
  through the ghost position between the end and the front, so with the offset not in the list
  the loop does not end. `Ends` is the loop without a bound on its rounds.
* `stores_cases`, `marked_cases`: what an acknowledgement of a waiting offset has done.
* `KafkaConsumer`: the queues of all partitions behind their mutex, and what `store_offsets` has
  last been given for each of them. A panic under the mutex poisons it.
-/
namespace CommonDataLayer
open MessagingSystem
set_option autoImplicit false

structure KafkaPartitionAckQueue where
  waitingList : List ℤ
  topic : String
  partition : ℕ
  lastOffset : ℤ
  deriving DecidableEq, Repr

namespace KafkaPartitionAckQueue

def new (topic : String) (partition : ℕ) : KafkaPartitionAckQueue :=
  { waitingList := [], topic := topic, partition := partition, lastOffset := 0 }

def add (queue : KafkaPartitionAckQueue) (offset : ℤ) : KafkaPartitionAckQueue :=
  { queue with waitingList := queue.waitingList ++ [offset], lastOffset := offset }

/-- `CursorMut::move_next` in a list of the given length; `none` is the ghost position. -/
def moveNext (length : ℕ) : Option ℕ → Option ℕ
  | none => if length = 0 then none else some 0
  | some i => if i + 1 < length then some (i + 1) else none

/-- At most `fuel` rounds of the loop that looks for an offset and removes it. -/
def search (list : List ℤ) (offset : ℤ) : ℕ → Option ℕ → Option (List ℤ)
  | 0, _ => none
  | fuel + 1, item =>
    match moveNext list.length item with
    | none => search list offset fuel none
    | some i =>
      if list[i]? = some offset then some (list.eraseIdx i) else search list offset fuel (some i)

/-- From this cursor the loop ends after so many rounds and leaves this list. -/
inductive Ends (list : List ℤ) (offset : ℤ) : Option ℕ → ℕ → List ℤ → Prop where
  | breaks {item : Option ℕ} {i : ℕ} (moved : moveNext list.length item = some i)
      (current : list[i]? = some offset) : Ends list offset item 1 (list.eraseIdx i)
  | again {item : Option ℕ} {rounds : ℕ} {left : List ℤ}
      (missed : ∀ i ∈ moveNext list.length item, list[i]? ≠ some offset)
      (rest : Ends list offset (moveNext list.length item) rounds left) :
      Ends list offset item (rounds + 1) left

inductive AckResult where
  /-- The front was acknowledged: this offset goes to `store_offsets`. -/
  | stores (queue : KafkaPartitionAckQueue) (offset : ℤ)
  | marked (queue : KafkaPartitionAckQueue)
  /-- The `unwrap` of the front of an empty list. -/
  | panics
  | loops

def ack (queue : KafkaPartitionAckQueue) (offset : ℤ) : AckResult :=
  match queue.waitingList with
  | [] => .panics
  | front :: rest =>
    if front = offset then
      .stores { queue with waitingList := rest } (match rest with
        | [] => max queue.lastOffset offset
        | next :: _ => next - 1)
    else
      match search queue.waitingList offset (queue.waitingList.length + 1) (some 0) with
      | some list => .marked { queue with waitingList := list }
      | none => .loops

/-! ## What the loop finds -/

theorem ends_of_search {list left : List ℤ} {offset : ℤ} {fuel : ℕ} {item : Option ℕ}
    (h : search list offset fuel item = some left) :
    ∃ rounds ≤ fuel, Ends list offset item rounds left := by
  induction fuel generalizing item with
  | zero => cases h
  | succ fuel ih =>
    unfold search at h
    split at h
    · next hmove =>
      obtain ⟨rounds, hle, hends⟩ := ih h
      refine ⟨rounds + 1, Nat.succ_le_succ hle, .again ?_ (hmove ▸ hends)⟩
      rw [hmove]
      exact fun i hi => by cases hi
    · next i hmove =>
      split at h
      · next hcurrent =>
        cases h
        exact ⟨1, Nat.succ_le_succ (Nat.zero_le _), .breaks hmove hcurrent⟩
      · next hmissed =>
        obtain ⟨rounds, hle, hends⟩ := ih h
        refine ⟨rounds + 1, Nat.succ_le_succ hle, .again ?_ (hmove ▸ hends)⟩
        rw [hmove]
        exact fun j hj => Option.some.inj hj ▸ hmissed

theorem Ends.search {list left : List ℤ} {offset : ℤ} {rounds : ℕ} {item : Option ℕ}
    (h : Ends list offset item rounds left) :
    ∀ fuel, rounds ≤ fuel → search list offset fuel item = some left := by
  induction h with
  | @breaks item i moved current =>
    rintro (_ | fuel) hfuel
    · cases hfuel
    · simp only [KafkaPartitionAckQueue.search, moved, if_pos current]
  | @again item rounds left missed rest ih =>
    rintro (_ | fuel) hfuel
    · cases hfuel
    · have hrest := ih fuel (Nat.le_of_succ_le_succ hfuel)
      cases hmove : moveNext list.length item with
      | none =>
        rw [hmove] at hrest
        simp only [KafkaPartitionAckQueue.search, hmove, hrest]
      | some i =>
        rw [hmove] at hrest
        simp only [KafkaPartitionAckQueue.search, hmove, if_neg (missed i hmove), hrest]

/-- The number of rounds only has to be large enough for the loop to end by itself. -/
theorem search_eq_some_iff {list left : List ℤ} {offset : ℤ} {fuel : ℕ} {item : Option ℕ} :
    search list offset fuel item = some left ↔ ∃ rounds ≤ fuel, Ends list offset item rounds left :=
  ⟨ends_of_search, fun ⟨_, hle, hends⟩ => hends.search fuel hle⟩

theorem search_from {offset : ℤ} {rest : List ℤ} (h : offset ∈ rest) (before : List ℤ) (last : ℤ) :
    ∀ fuel, rest.length ≤ fuel → search (before ++ last :: rest) offset fuel (some before.length) =
      some (before ++ last :: rest.erase offset) := by
  induction rest generalizing before last with
  | nil => cases h
  | cons next rest ih =>
    intro fuel hfuel
    obtain ⟨fuel, rfl⟩ : ∃ n, fuel = n + 1 :=
      ⟨fuel - 1, by simp only [List.length_cons] at hfuel; omega⟩
    have hmove : moveNext (before ++ last :: next :: rest).length (some before.length) =
        some (before.length + 1) := if_pos (by simp)
    have hget : (before ++ last :: next :: rest)[before.length + 1]? = some next := by simp
    unfold search
    simp only [hmove, hget, Option.some.injEq]
    by_cases hne : next = offset
    · subst hne
      rw [if_pos rfl, List.erase_cons_head, List.eraseIdx_append_of_length_le (by omega)]
      simp
    · rw [if_neg hne, List.erase_cons_tail (by simpa using hne)]
      have hmem : offset ∈ rest := by
        rcases List.mem_cons.mp h with h | h
        · exact absurd h.symm hne
        · exact h
      have hstep := ih hmem (before ++ [last]) next fuel
        (by simp only [List.length_cons] at hfuel; omega)
      simpa using hstep

/-- Acknowledging the front. -/
theorem ack_front {queue : KafkaPartitionAckQueue} {offset : ℤ} {rest : List ℤ}
    (h : queue.waitingList = offset :: rest) :
    queue.ack offset = .stores { queue with waitingList := rest }
      ((rest.head?.map (· - 1)).getD (max queue.lastOffset offset)) := by
  unfold ack
  rw [h]
  cases rest <;> simp

/-- Acknowledging an offset that waits behind the front. -/
theorem ack_behind {queue : KafkaPartitionAckQueue} {offset front : ℤ} {rest : List ℤ}
    (h : queue.waitingList = front :: rest) (hne : front ≠ offset) (hmem : offset ∈ rest) :
    queue.ack offset = .marked { queue with waitingList := front :: rest.erase offset } := by
  have hsearch := search_from hmem [] front (rest.length + 2) (by omega)
  simp only [List.nil_append, List.length_nil] at hsearch
  unfold ack
  simp only [h, if_neg hne, List.length_cons, hsearch]

/-- An offset that waits is the front or comes behind it. -/
theorem front_or_behind {list : List ℤ} {offset : ℤ} (h : offset ∈ list) :
    ∃ front rest, list = front :: rest ∧ (front = offset ∨ front ≠ offset ∧ offset ∈ rest) := by
  obtain ⟨front, rest, rfl⟩ := List.exists_cons_of_ne_nil (List.ne_nil_of_mem h)
  refine ⟨front, rest, rfl, ?_⟩
  by_cases hfront : front = offset
  · exact Or.inl hfront
  · exact Or.inr ⟨hfront, (List.mem_cons.mp h).resolve_left (Ne.symm hfront)⟩

/-- Only an acknowledgement of the front stores. -/
theorem stores_cases {queue queue' : KafkaPartitionAckQueue} {offset o : ℤ}
    (h : offset ∈ queue.waitingList) (hack : queue.ack offset = .stores queue' o) :
    ∃ rest, queue.waitingList = offset :: rest ∧ queue' = { queue with waitingList := rest } ∧
      o = (rest.head?.map (· - 1)).getD (max queue.lastOffset offset) := by
  obtain ⟨front, rest, hlist, rfl | ⟨hfront, hmem⟩⟩ := front_or_behind h
  · rw [ack_front hlist, AckResult.stores.injEq] at hack
    exact ⟨rest, hlist, hack.1.symm, hack.2.symm⟩
  · rw [ack_behind hlist hfront hmem] at hack
    cases hack

/-- All others only leave the list. -/
theorem marked_cases {queue queue' : KafkaPartitionAckQueue} {offset : ℤ}
    (h : offset ∈ queue.waitingList) (hack : queue.ack offset = .marked queue') :
    ∃ front rest, queue.waitingList = front :: rest ∧ front ≠ offset ∧
      queue' = { queue with waitingList := front :: rest.erase offset } := by
  obtain ⟨front, rest, hlist, rfl | ⟨hfront, hmem⟩⟩ := front_or_behind h
  · rw [ack_front hlist] at hack
    cases hack
  · rw [ack_behind hlist hfront hmem, AckResult.marked.injEq] at hack
    exact ⟨front, rest, hlist, hfront, hack.symm⟩

/-- Acknowledging an offset that waits. -/
theorem ack_of_mem {queue : KafkaPartitionAckQueue} {offset : ℤ} (h : offset ∈ queue.waitingList) :
    queue.ack offset = .stores { queue with waitingList := queue.waitingList.erase offset }
        (((queue.waitingList.erase offset).head?.map (· - 1)).getD (max queue.lastOffset offset)) ∨
      queue.waitingList.head? ≠ some offset ∧
        queue.ack offset = .marked { queue with waitingList := queue.waitingList.erase offset } := by
  obtain ⟨front, rest, hlist, rfl | ⟨hfront, hmem⟩⟩ := front_or_behind h
  · left
    rw [ack_front hlist, hlist, List.erase_cons_head]
  · right
    rw [ack_behind hlist hfront hmem, hlist, List.erase_cons_tail (by simpa using hfront)]
    exact ⟨by simpa using hfront, rfl⟩

end KafkaPartitionAckQueue

/-! ## All partitions -/

/-- The Kafka consumer: its acknowledgement queues and the offsets given to `store_offsets`. -/
structure KafkaConsumer where
  queue : Std.ExtTreeMap ℕ KafkaPartitionAckQueue
  poisoned : Bool
  stored : Std.ExtTreeMap ℕ ℤ

namespace KafkaConsumer

def initial : KafkaConsumer := { queue := ∅, poisoned := false, stored := ∅ }

/-- `KafkaAckQueue::add`. -/
def add (consumer : KafkaConsumer) (message : BorrowedMessage) : KafkaConsumer :=
  let queue := (consumer.queue[message.partition]?).getD (.new message.topic message.partition)
  { consumer with queue := consumer.queue.insert message.partition (queue.add message.offset) }

inductive AckOutcome where
  | returns (consumer : KafkaConsumer)
  | panics (consumer : KafkaConsumer)
  | loops

/-- `KafkaAckQueue::ack` under the mutex; `storeFails` says what `store_offsets` returns. -/
def ack (consumer : KafkaConsumer) (message : BorrowedMessage) (storeFails : Bool) : AckOutcome :=
  match consumer.queue[message.partition]? with
  | none => .panics { consumer with poisoned := true }
  | some queue =>
    match queue.ack message.offset with
    | .panics => .panics { consumer with poisoned := true }
    | .loops => .loops
    | .marked queue =>
      .returns { consumer with queue := consumer.queue.insert message.partition queue }
    | .stores queue offset =>
      let consumer := { consumer with queue := consumer.queue.insert message.partition queue }
      if storeFails then .panics { consumer with poisoned := true }
      else .returns { consumer with stored := consumer.stored.insert message.partition offset }

/-- An acknowledgement that returns. -/
theorem ack_returns {consumer consumer' : KafkaConsumer} {m : BorrowedMessage} {storeFails : Bool}
    (h : consumer.ack m storeFails = .returns consumer') :
    ∃ queue, consumer.queue[m.partition]? = some queue ∧
      ((∃ queue', queue.ack m.offset = .marked queue' ∧
          consumer' = { consumer with queue := consumer.queue.insert m.partition queue' }) ∨
        ∃ queue' o, queue.ack m.offset = .stores queue' o ∧
          consumer' = { consumer with
            queue := consumer.queue.insert m.partition queue',
            stored := consumer.stored.insert m.partition o }) := by
  unfold KafkaConsumer.ack at h
  split at h
  · cases h
  · next queue hqueue =>
    refine ⟨queue, hqueue, ?_⟩
    split at h
    · cases h
    · cases h
    · next queue' hack =>
      simp only [AckOutcome.returns.injEq] at h
      exact Or.inl ⟨queue', hack, h.symm⟩
    · next queue' o hack =>
      split at h
      · cases h
      · simp only [AckOutcome.returns.injEq] at h
        exact Or.inr ⟨queue', o, hack, h.symm⟩

/-- The offsets that wait in a partition, which has no queue before its first message. -/
def waitingList (consumer : KafkaConsumer) (partition : ℕ) : List ℤ :=
  (consumer.queue[partition]?.map (·.waitingList)).getD []

variable {consumer consumer' : KafkaConsumer} {m : BorrowedMessage}

theorem waitingList_add (consumer : KafkaConsumer) (m : BorrowedMessage) (p : ℕ) :
    (consumer.add m).waitingList p =
      if m.partition = p then consumer.waitingList p ++ [m.offset] else consumer.waitingList p := by
  unfold waitingList add
  by_cases hp : m.partition = p
  · subst hp
    cases consumer.queue[m.partition]? <;>
      simp [KafkaPartitionAckQueue.add, KafkaPartitionAckQueue.new]
  · simp [Std.ExtTreeMap.getElem?_insert, hp]

theorem waitingList_insert (consumer : KafkaConsumer) (p p' : ℕ) (queue : KafkaPartitionAckQueue) :
    waitingList { consumer with queue := consumer.queue.insert p queue } p' =
      if p = p' then queue.waitingList else consumer.waitingList p' := by
  unfold waitingList
  by_cases hp : p = p'
  · simp [hp]
  · simp [Std.ExtTreeMap.getElem?_insert, hp]

theorem exists_queue {p : ℕ} {offset : ℤ} (h : offset ∈ consumer.waitingList p) :
    ∃ queue, consumer.queue[p]? = some queue ∧ offset ∈ queue.waitingList := by
  unfold waitingList at h
  cases hq : consumer.queue[p]? with
  | none => rw [hq] at h; cases h
  | some queue => rw [hq] at h; exact ⟨queue, rfl, h⟩

/-- What a returned `ack` of a waiting offset has changed. -/
theorem ack_of_waiting {storeFails : Bool} (hmem : m.offset ∈ consumer.waitingList m.partition)
    (h : consumer.ack m storeFails = .returns consumer') :
    ∃ queue, consumer.queue[m.partition]? = some queue ∧
      consumer'.poisoned = consumer.poisoned ∧
      consumer'.queue = consumer.queue.insert m.partition
        { queue with waitingList := queue.waitingList.erase m.offset } ∧
      (consumer'.stored = consumer.stored ∨
        consumer'.stored = consumer.stored.insert m.partition
          (((queue.waitingList.erase m.offset).head?.map (· - 1)).getD
            (max queue.lastOffset m.offset))) := by
  obtain ⟨queue, hqueue, hwait⟩ := exists_queue hmem
  refine ⟨queue, hqueue, ?_⟩
  unfold KafkaConsumer.ack at h
  rw [hqueue] at h
  rcases KafkaPartitionAckQueue.ack_of_mem hwait with hack | ⟨_, hack⟩
  · simp only [hack] at h
    cases storeFails with
    | true => simp at h
    | false =>
      simp only [Bool.false_eq_true, if_false, KafkaConsumer.AckOutcome.returns.injEq] at h
      subst h
      exact ⟨rfl, rfl, .inr rfl⟩
  · simp only [hack, KafkaConsumer.AckOutcome.returns.injEq] at h
    subst h
    exact ⟨rfl, rfl, .inl rfl⟩

end KafkaConsumer
end CommonDataLayer
