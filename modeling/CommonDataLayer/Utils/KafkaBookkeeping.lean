import Mathlib.Algebra.Order.Ring.Int
import Mathlib.Data.List.Basic
import CommonDataLayer.Foundations.AckedPrefix
import CommonDataLayer.Foundations.Runs
import CommonDataLayer.Utils.KafkaAckQueue

/-! # What the acknowledgement queue of a partition stores

Runs of one `KafkaPartitionAckQueue`: offsets are added in increasing order, and each of them is
acknowledged at most once, at any time after it was added.

* `Tracks`: the invariant. The waiting list holds the offsets that are not acknowledged, and the
  last stored offset covers exactly the longest acknowledged prefix.
* `Tracks.step`: what an acknowledgement of the front stores, and that nothing else moves the
  prefix.
* `stored_exact`: so it is after every operation of every run.
-/
namespace CommonDataLayer.KafkaPartitionAckQueue
open Acknowledgement TransitionSystem
set_option autoImplicit false

/-- A queue and its past: what was last stored, the offsets that were added, and those that were
acknowledged. -/
structure Tracked where
  queue : KafkaPartitionAckQueue
  stored : Option ℤ
  added : List ℤ
  acked : List ℤ

inductive Operation where
  | add (offset : ℤ)
  | ack (offset : ℤ)

namespace Tracked

def initial (topic : String) (partition : ℕ) : Tracked :=
  { queue := .new topic partition, stored := none, added := [], acked := [] }

def add (s : Tracked) (offset : ℤ) : Tracked :=
  { s with queue := s.queue.add offset, added := s.added ++ [offset] }

/-- The acknowledgement of `offset` has left this queue and stored this. -/
def ack (s : Tracked) (offset : ℤ) (queue : KafkaPartitionAckQueue) (stored : Option ℤ) : Tracked :=
  { s with queue := queue, stored := stored, acked := offset :: s.acked }

inductive Step : Tracked → Operation → Tracked → Prop where
  | add {s : Tracked} {offset : ℤ} (increasing : ∀ x ∈ s.added, x < offset) :
      Step s (.add offset) (s.add offset)
  | stores {s : Tracked} {offset o : ℤ} {queue : KafkaPartitionAckQueue} (added : offset ∈ s.added)
      (once : offset ∉ s.acked) (returns : s.queue.ack offset = .stores queue o) :
      Step s (.ack offset) (s.ack offset queue (some o))
  | marks {s : Tracked} {offset : ℤ} {queue : KafkaPartitionAckQueue} (added : offset ∈ s.added)
      (once : offset ∉ s.acked) (returns : s.queue.ack offset = .marked queue) :
      Step s (.ack offset) (s.ack offset queue s.stored)

/-- The stored offset says exactly how far everything is acknowledged. -/
structure Exact (s : Tracked) : Prop where
  prefix_covered : covered s.stored s.added = ackedPrefix s.acked s.added
  safe : ∀ x ∈ s.added, x ∉ s.acked → ∀ o ∈ s.stored, o < x
  complete : (∀ x ∈ s.added, x ∈ s.acked) → s.stored = s.added.getLast?
  /-- No acknowledgement panics or loops. -/
  returns : ∀ x ∈ s.added, x ∉ s.acked → ∃ s', Step s (.ack x) s'

/-! ## The invariant -/

structure Tracks (s : Tracked) : Prop where
  sorted : s.added.Pairwise (· < ·)
  waitingList : s.queue.waitingList = waiting s.acked s.added
  last : ∀ x ∈ s.added, x ≤ s.queue.lastOffset
  last_mem : s.added ≠ [] → s.queue.lastOffset ∈ s.added
  acked : ∀ x ∈ s.acked, x ∈ s.added
  stored : covered s.stored s.added = ackedPrefix s.acked s.added
  bound : ∀ o ∈ s.stored, ∃ x ∈ s.added, o ≤ x

variable {s s' : Tracked} {offset : ℤ}

theorem tracks_initial (topic : String) (partition : ℕ) : Tracks (initial topic partition) := by
  constructor <;> simp [initial, new, waiting, covered, ackedPrefix]

theorem Tracks.mem_waitingList (h : Tracks s) {x : ℤ} :
    x ∈ s.queue.waitingList ↔ x ∈ s.added ∧ x ∉ s.acked := by
  rw [h.waitingList, mem_waiting]

theorem Tracks.waits (h : Tracks s) (hadded : offset ∈ s.added) (hnot : offset ∉ s.acked) :
    offset ∈ s.queue.waitingList := h.mem_waitingList.mpr ⟨hadded, hnot⟩

theorem Tracks.safe (h : Tracks s) {x : ℤ} (hadded : x ∈ s.added) (hnot : x ∉ s.acked) :
    ∀ o ∈ s.stored, o < x := by
  intro o ho
  by_contra hle
  have hcovered : x ∈ covered s.stored s.added := mem_covered.mpr ⟨hadded, o, ho, by omega⟩
  rw [h.stored] at hcovered
  exact hnot (acked_of_mem_ackedPrefix hcovered)

/-- The waiting list after an acknowledgement. -/
theorem Tracks.waiting_cons (h : Tracks s) :
    waiting (offset :: s.acked) s.added = s.queue.waitingList.erase offset := by
  have hnodup : s.added.Nodup := h.sorted.imp fun hlt => ne_of_lt hlt
  have hwaiting : (waiting s.acked s.added).Nodup := hnodup.sublist List.filter_sublist
  rw [h.waitingList, hwaiting.erase_eq_filter, waiting, waiting, List.filter_filter]
  refine List.filter_congr fun x _ => ?_
  by_cases hx : x = offset <;> simp [hx]

theorem Tracks.add (h : Tracks s) (hnew : ∀ x ∈ s.added, x < offset) : Tracks (s.add offset) := by
  have hfresh : offset ∉ s.acked := fun hmem => lt_irrefl _ (hnew offset (h.acked offset hmem))
  have hmark : ∀ o ∈ s.stored, o < offset := by
    intro o ho
    obtain ⟨x, hx, hle⟩ := h.bound o ho
    exact hle.trans_lt (hnew x hx)
  refine ⟨?_, ?_, ?_, ?_, ?_, ?_, ?_⟩
  · exact List.pairwise_append.mpr ⟨h.sorted, List.pairwise_singleton _ _, by simpa using hnew⟩
  · show s.queue.waitingList ++ [offset] = waiting s.acked (s.added ++ [offset])
    simp [h.waitingList, waiting, hfresh]
  · intro x hx
    rcases List.mem_append.mp hx with hx | hx
    · exact (hnew x hx).le
    · exact (List.mem_singleton.mp hx).le
  · exact fun _ => List.mem_append_right _ (List.mem_singleton_self offset)
  · exact fun x hx => List.mem_append_left _ (h.acked x hx)
  · show covered s.stored (s.added ++ [offset]) = ackedPrefix s.acked (s.added ++ [offset])
    rw [covered_append hmark, ackedPrefix_append hfresh, h.stored]
  · intro o ho
    obtain ⟨x, hx, hle⟩ := h.bound o ho
    exact ⟨x, List.mem_append_left _ hx, hle⟩

/-- The front is acknowledged: what is stored covers the items before the next one that waits, or
all of them. -/
theorem Tracks.covered_front (h : Tracks s) (hadded : offset ∈ s.added) {rest : List ℤ}
    (hrest : waiting (offset :: s.acked) s.added = rest) {o : ℤ}
    (ho : o = (rest.head?.map (· - 1)).getD (max s.queue.lastOffset offset)) :
    covered (some o) s.added = ackedPrefix (offset :: s.acked) s.added ∧ ∃ x ∈ s.added, o ≤ x := by
  cases rest with
  | nil =>
    have hmax : o = s.queue.lastOffset := by simpa [h.last offset hadded] using ho
    have hne : s.added ≠ [] := List.ne_nil_of_mem hadded
    rw [hmax, covered_eq_self h.last, ackedPrefix_eq_self (waiting_eq_nil.mp hrest)]
    exact ⟨rfl, _, h.last_mem hne, le_rfl⟩
  | cons next rest =>
    have hmark : o = next - 1 := by simpa using ho
    have hnext : next ∈ waiting (offset :: s.acked) s.added := hrest ▸ List.mem_cons_self
    rw [ackedPrefix_of_waiting h.sorted (by rw [hrest]; rfl), hmark, covered]
    refine ⟨List.filter_congr fun x _ => ?_, next, (mem_waiting.mp hnext).1, by omega⟩
    rw [decide_eq_decide]
    omega

theorem Tracks.step {op : Operation} (h : Tracks s) (hstep : Step s op s') : Tracks s' := by
  cases hstep with
  | add increasing => exact h.add increasing
  | @stores offset o queue hadded hnot hack =>
    have hacked : ∀ x ∈ offset :: s.acked, x ∈ s.added := List.forall_mem_cons.mpr ⟨hadded, h.acked⟩
    obtain ⟨rest, hlist, rfl, ho⟩ := stores_cases (h.waits hadded hnot) hack
    have hrest : waiting (offset :: s.acked) s.added = rest := by
      rw [h.waiting_cons, hlist, List.erase_cons_head]
    obtain ⟨hcovered, hbound⟩ := h.covered_front hadded hrest ho
    refine ⟨h.sorted, hrest.symm, h.last, h.last_mem, hacked, hcovered, fun _ ho => ?_⟩
    cases ho
    exact hbound
  | @marks offset queue hadded hnot hack =>
    have hacked : ∀ x ∈ offset :: s.acked, x ∈ s.added := List.forall_mem_cons.mpr ⟨hadded, h.acked⟩
    obtain ⟨front, rest, hlist, hfront, rfl⟩ := marked_cases (h.waits hadded hnot) hack
    have hhead : (waiting s.acked s.added).head? = some front := by rw [← h.waitingList, hlist]; rfl
    refine ⟨h.sorted, ?_, h.last, h.last_mem, hacked, ?_, h.bound⟩
    · show front :: rest.erase offset = waiting (offset :: s.acked) s.added
      rw [h.waiting_cons, hlist, List.erase_cons_tail (by simpa using hfront)]
    · show covered s.stored s.added = ackedPrefix (offset :: s.acked) s.added
      rw [ackedPrefix_cons h.sorted hhead (Ne.symm hfront), h.stored]

/-! ## Every run -/

theorem Tracks.getLast? (h : Tracks s) (hne : s.added ≠ []) :
    s.added.getLast? = some s.queue.lastOffset := by
  obtain ⟨front, last, hsplit⟩ := (List.eq_nil_or_concat' s.added).resolve_left hne
  have hsorted := h.sorted
  have hmem := h.last_mem hne
  rw [hsplit, List.pairwise_append] at hsorted
  rw [hsplit, List.mem_append, List.mem_singleton] at hmem
  rw [hsplit, List.getLast?_concat, Option.some.injEq]
  rcases hmem with hmem | hmem
  · have hlt := hsorted.2.2 _ hmem last (List.mem_singleton_self last)
    have hle := h.last last (by simp [hsplit])
    omega
  · exact hmem.symm

/-- With everything acknowledged, the last offset is stored. -/
theorem Tracks.complete (h : Tracks s) (hall : ∀ x ∈ s.added, x ∈ s.acked) :
    s.stored = s.added.getLast? := by
  have hcovered : covered s.stored s.added = s.added := by rw [h.stored, ackedPrefix_eq_self hall]
  by_cases hne : s.added = []
  · cases hstored : s.stored with
    | none => rw [hne]; rfl
    | some o =>
      obtain ⟨x, hx, -⟩ := h.bound o hstored
      rw [hne] at hx
      cases hx
  · rw [h.getLast? hne]
    have hlast := h.last_mem hne
    rw [← hcovered, mem_covered] at hlast
    obtain ⟨-, o, ho, hle⟩ := hlast
    obtain ⟨x, hx, hbound⟩ := h.bound o ho
    have hmax := h.last x hx
    have heq : o = s.queue.lastOffset := by omega
    rw [ho, heq]

theorem Tracks.returns (h : Tracks s) (hadded : offset ∈ s.added) (hnot : offset ∉ s.acked) :
    ∃ s', Step s (.ack offset) s' := by
  obtain ⟨front, rest, hlist, rfl | ⟨hfront, hmem⟩⟩ := front_or_behind (h.waits hadded hnot)
  · exact ⟨_, .stores hadded hnot (ack_front hlist)⟩
  · exact ⟨_, .marks hadded hnot (ack_behind hlist hfront hmem)⟩

theorem Tracks.exact (h : Tracks s) : Exact s where
  prefix_covered := h.stored
  safe _ hadded hnot := h.safe hadded hnot
  complete := h.complete
  returns _ hadded hnot := h.returns hadded hnot

/-- A stored offset only grows. -/
theorem Tracks.grows {op : Operation} (h : Tracks s) (hstep : Step s op s') {o : ℤ}
    (ho : o ∈ s.stored) : ∃ o' ∈ s'.stored, o ≤ o' := by
  have hafter := h.step hstep
  obtain ⟨x, hx, hbound⟩ := h.bound o ho
  cases hstep with
  | add increasing => exact ⟨o, ho, le_rfl⟩
  | marks hadded hnot hack => exact ⟨o, ho, le_rfl⟩
  | @stores offset o' queue hadded hnot hack =>
    refine ⟨o', rfl, ?_⟩
    obtain ⟨rest, hlist, -, hstored⟩ := stores_cases (h.waits hadded hnot) hack
    cases rest with
    | nil =>
      have hmax : o' = s.queue.lastOffset := by simpa [h.last offset hadded] using hstored
      have hle := h.last x hx
      omega
    | cons next rest =>
      have hmark : o' = next - 1 := by simpa using hstored
      have hnext := h.mem_waitingList.mp (hlist ▸ List.mem_cons_of_mem offset List.mem_cons_self)
      have hlt := h.safe hnext.1 hnext.2 o ho
      omega

theorem tracks_run {topic : String} {partition : ℕ} {ts : List (Transition Tracked Operation)}
    (hrun : Run Step (initial topic partition) ts s) :
    Tracks s ∧ ∀ t ∈ ts, Tracks t.before ∧ Tracks t.after :=
  hrun.invariant (tracks_initial topic partition) (fun _ _ _ h hstep (_ : True) => h.step hstep)
    fun _ _ => trivial

/-- After every operation the stored offset is exact, and it never decreases. -/
theorem stored_exact {topic : String} {partition : ℕ} {ts : List (Transition Tracked Operation)}
    (hrun : Run Step (initial topic partition) ts s) :
    (∀ s ∈ states (initial topic partition) ts, Exact s) ∧
      ∀ t ∈ ts, ∀ o ∈ t.before.stored, ∃ o' ∈ t.after.stored, o ≤ o' := by
  obtain ⟨-, htracks⟩ := tracks_run hrun
  constructor
  · have hall : ∀ s ∈ states (initial topic partition) ts, Tracks s :=
      hrun.invariant_states (tracks_initial topic partition)
        (fun _ _ _ h hstep (_ : True) => h.step hstep) fun _ _ => trivial
    exact fun s hs => (hall s hs).exact
  · intro t ht o ho
    exact (htracks t ht).1.grows (hrun.step_of_mem ht) ho

theorem stored_exact_gap : ∃ ts s, Run Step (initial "report" 0) ts s ∧ s.stored = some 6 ∧
    (∀ s ∈ states (initial "report" 0) ts, Exact s) ∧
      ∀ t ∈ ts, ∀ o ∈ t.before.stored, ∃ o' ∈ t.after.stored, o ≤ o' := by
  have hfirst : Step (initial "report" 0) (.add 5) ((initial "report" 0).add 5) := .add (by simp [initial])
  have hsecond : Step ((initial "report" 0).add 5) (.add 7) (((initial "report" 0).add 5).add 7) :=
    .add (by simp [Tracked.add, initial])
  have hack : (((initial "report" 0).add 5).add 7).queue.ack 5 =
      .stores { waitingList := [7], topic := "report", partition := 0, lastOffset := 7 } 6 := rfl
  have hthird := Step.stores (by simp [Tracked.add, initial]) (by simp [Tracked.add, initial]) hack
  have hrun := ((Run.start.step hfirst).step hsecond).step hthird
  exact ⟨_, _, hrun, rfl, stored_exact hrun⟩

end Tracked
end CommonDataLayer.KafkaPartitionAckQueue
