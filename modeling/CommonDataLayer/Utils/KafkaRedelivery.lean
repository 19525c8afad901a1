import CommonDataLayer.Foundations.Occurrences
import CommonDataLayer.Foundations.Runs
import CommonDataLayer.Utils.KafkaAckQueue

/-! # Acknowledging messages that were delivered again

After a rebalance a partition delivers messages again that are still waiting: their offsets come in
any order and more than once. Runs of a `KafkaPartitionAckQueue` in which each delivery is
acknowledged at most once.

* `Deliveries.Holds`: the invariant. The waiting list is what is left of the offsets when each
  acknowledged one was taken out at its first place, so an offset waits as often as it was not
  acknowledged.
* `Found`: an acknowledgement that finds its offset, at the front or within one pass of the loop.
* `ack_found`: so does each acknowledgement of every run.
-/
namespace CommonDataLayer.KafkaPartitionAckQueue
open Occurrences TransitionSystem
set_option autoImplicit false

/-- A queue and its past: the offsets of all deliveries, and the deliveries that were acknowledged. -/
structure Deliveries where
  queue : KafkaPartitionAckQueue
  added : List ℤ
  acked : List ℕ

inductive Call where
  | add (offset : ℤ)
  /-- The acknowledgement of a delivery, which is the index of its `add`. -/
  | ack (delivery : ℕ)

namespace Deliveries

def initial (topic : String) (partition : ℕ) : Deliveries :=
  { queue := .new topic partition, added := [], acked := [] }

def add (s : Deliveries) (offset : ℤ) : Deliveries :=
  { s with queue := s.queue.add offset, added := s.added ++ [offset] }

def ack (s : Deliveries) (delivery : ℕ) (queue : KafkaPartitionAckQueue) : Deliveries :=
  { s with queue := queue, acked := delivery :: s.acked }

inductive Step : Deliveries → Call → Deliveries → Prop where
  | add {s : Deliveries} {offset : ℤ} : Step s (.add offset) (s.add offset)
  | stores {s : Deliveries} {delivery : ℕ} {offset o : ℤ} {queue : KafkaPartitionAckQueue}
      (added : s.added[delivery]? = some offset) (once : delivery ∉ s.acked)
      (returns : s.queue.ack offset = .stores queue o) :
      Step s (.ack delivery) (s.ack delivery queue)
  | marks {s : Deliveries} {delivery : ℕ} {offset : ℤ} {queue : KafkaPartitionAckQueue}
      (added : s.added[delivery]? = some offset) (once : delivery ∉ s.acked)
      (returns : s.queue.ack offset = .marked queue) :
      Step s (.ack delivery) (s.ack delivery queue)

end Deliveries

/-! ## An acknowledgement of an offset that waits -/

/-- The acknowledgement finds its offset, and takes its first occurrence out of the list. -/
inductive Found (queue : KafkaPartitionAckQueue) (offset : ℤ) : Prop where
  | front {rest : List ℤ} {o : ℤ} (waits : queue.waitingList = offset :: rest)
      (returns : queue.ack offset = .stores { queue with waitingList := rest } o)
  | behind {before after : List ℤ} {rounds : ℕ} (skipped : before ≠ []) (first : offset ∉ before)
      (waits : queue.waitingList = before ++ offset :: after)
      (pass : rounds < queue.waitingList.length)
      (ends : Ends queue.waitingList offset (some 0) rounds (before ++ after))
      (returns : queue.ack offset = .marked { queue with waitingList := before ++ after })

variable {queue : KafkaPartitionAckQueue} {offset : ℤ}

/-- Behind the front the loop meets the offset before it comes to the ghost position. -/
theorem ends_behind (front : ℤ) {rest : List ℤ} (h : offset ∈ rest) :
    ∃ rounds < (front :: rest).length,
      Ends (front :: rest) offset (some 0) rounds (front :: rest.erase offset) := by
  have hsearch : search (front :: rest) offset rest.length (some 0) =
      some (front :: rest.erase offset) := search_from h [] front rest.length (Nat.le_refl _)
  obtain ⟨rounds, hle, hends⟩ := search_eq_some_iff.mp hsearch
  exact ⟨rounds, Nat.lt_succ_of_le hle, hends⟩

theorem found_of_mem (h : offset ∈ queue.waitingList) : Found queue offset := by
  obtain ⟨front, rest, hlist, rfl | ⟨hfront, hmem⟩⟩ := front_or_behind h
  · exact .front hlist (ack_front hlist)
  · obtain ⟨rounds, hpass, hends⟩ := ends_behind front hmem
    obtain ⟨before, after, hnot, hrest, herase⟩ := List.exists_erase_eq hmem
    have hack := ack_behind hlist hfront hmem
    rw [herase, ← List.cons_append] at hends hack
    refine .behind (List.cons_ne_nil front before) ?_ ?_ (hlist ▸ hpass) (hlist ▸ hends) hack
    · exact List.not_mem_cons_of_ne_of_not_mem (Ne.symm hfront) hnot
    · rw [hlist, hrest, List.cons_append]

/-- Whatever the acknowledgement returns, one occurrence of the offset has left the list. -/
theorem waitingList_of_ack {queue' : KafkaPartitionAckQueue} (h : offset ∈ queue.waitingList)
    (hack : (∃ o, queue.ack offset = .stores queue' o) ∨ queue.ack offset = .marked queue') :
    queue'.waitingList = queue.waitingList.erase offset := by
  obtain ⟨o, hack⟩ | hack := hack
  · obtain ⟨rest, hlist, rfl, -⟩ := stores_cases h hack
    rw [hlist, List.erase_cons_head]
  · obtain ⟨front, rest, hlist, hfront, rfl⟩ := marked_cases h hack
    rw [hlist, List.erase_cons_tail (by simpa using hfront)]

/-! ## The invariant -/

namespace Deliveries

structure Holds (s : Deliveries) : Prop where
  taken : Taken s.added s.acked
  waitingList : s.queue.waitingList = remaining s.added s.acked

variable {s s' : Deliveries} {delivery : ℕ} {call : Call} {ts : List (Transition Deliveries Call)}
  {topic : String} {partition : ℕ}

theorem holds_initial (topic : String) (partition : ℕ) : Holds (initial topic partition) :=
  ⟨taken_nil [], rfl⟩

theorem Holds.waits (h : Holds s) (hadded : s.added[delivery]? = some offset)
    (hnot : delivery ∉ s.acked) : offset ∈ s.queue.waitingList :=
  h.waitingList ▸ mem_remaining h.taken hadded hnot

theorem Holds.add (h : Holds s) (offset : ℤ) : Holds (s.add offset) := by
  refine ⟨h.taken.append offset, ?_⟩
  show s.queue.waitingList ++ [offset] = remaining (s.added ++ [offset]) s.acked
  rw [remaining_append h.taken, h.waitingList]

theorem Holds.ack (h : Holds s) (hadded : s.added[delivery]? = some offset)
    (hnot : delivery ∉ s.acked)
    (hack : (∃ o, s.queue.ack offset = .stores queue o) ∨ s.queue.ack offset = .marked queue) :
    Holds (s.ack delivery queue) := by
  refine ⟨h.taken.cons hadded hnot, ?_⟩
  show queue.waitingList = remaining s.added (delivery :: s.acked)
  rw [remaining_cons hadded, ← h.waitingList]
  exact waitingList_of_ack (h.waits hadded hnot) hack

theorem Holds.step (h : Holds s) (hstep : Step s call s') : Holds s' := by
  cases hstep with
  | add => exact h.add _
  | stores added once returns => exact h.ack added once (.inl ⟨_, returns⟩)
  | marks added once returns => exact h.ack added once (.inr returns)

theorem holds_of_run (hrun : Run Step (initial topic partition) ts s) :
    ∀ s ∈ states (initial topic partition) ts, Holds s :=
  hrun.invariant_states (holds_initial topic partition)
    (fun _ _ _ h hstep (_ : True) => h.step hstep) fun _ _ => trivial

/-- Each delivery that is not acknowledged can be acknowledged next, and is found. -/
theorem ack_found (hrun : Run Step (initial topic partition) ts s) :
    ∀ s ∈ states (initial topic partition) ts, ∀ delivery offset,
      s.added[delivery]? = some offset → delivery ∉ s.acked →
        s.queue.waitingList ≠ [] ∧ Found s.queue offset := by
  intro s hs delivery offset hadded hnot
  have hwaits := (holds_of_run hrun s hs).waits hadded hnot
  exact ⟨List.ne_nil_of_mem hwaits, found_of_mem hwaits⟩

/-- Offset 5 comes again while it waits, and its second delivery is acknowledged first. -/
theorem ack_found_twice : ∃ ts s,
    Run Step (initial "topic" 0) ts s ∧ s.queue.waitingList = [7, 5] ∧ Found s.queue 5 := by
  have hadds : Run Step (initial "topic" 0) _ ((((initial "topic" 0).add 5).add 7).add 5) :=
    ((Run.start.step .add).step .add).step .add
  have hack : ((((initial "topic" 0).add 5).add 7).add 5).queue.ack 5 =
      .stores { waitingList := [7, 5], topic := "topic", partition := 0, lastOffset := 5 } 6 := rfl
  have hstep : Step _ (.ack 2) _ := .stores rfl List.not_mem_nil hack
  have hrun := hadds.step hstep
  have hfound := ack_found hrun _ hrun.last_mem_states 0 5 rfl (by decide)
  exact ⟨_, _, hrun, rfl, hfound.2⟩

end Deliveries
end CommonDataLayer.KafkaPartitionAckQueue
