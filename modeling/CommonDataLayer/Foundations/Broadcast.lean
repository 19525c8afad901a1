import Mathlib.Data.List.Basic

/-! # Broadcast channels

Every receiver of a channel gets every value that is sent after it was created. The channel keeps the
last `capacity` values. A receiver that is further behind is told how many it missed, and goes on with
the oldest value that is kept.

* `Channel.Keeps`: the values that are kept are the last ones of all that were sent.
* `recv_cases`: what a receiver gets, in terms of all values that were sent.
-/
namespace Broadcast
set_option autoImplicit false

variable {α : Type}

structure Channel (α : Type) where
  capacity : ℕ
  buffer : List α
  /-- The position of the next value that is sent. -/
  tail : ℕ
  length_le_capacity : buffer.length ≤ capacity
  length_le_tail : buffer.length ≤ tail

inductive Received (α : Type) where
  | value (a : α)
  | lagged (missed : ℕ)
  | empty
  deriving DecidableEq, Repr

namespace Channel

def new (capacity : ℕ) : Channel α where
  capacity := capacity
  buffer := []
  tail := 0
  length_le_capacity := Nat.zero_le _
  length_le_tail := Nat.le_refl _

/-- Puts a value in and drops the oldest one if there are too many. -/
def send (c : Channel α) (a : α) : Channel α where
  capacity := c.capacity
  buffer := (c.buffer ++ [a]).drop (c.buffer.length + 1 - c.capacity)
  tail := c.tail + 1
  length_le_capacity := by
    rw [List.length_drop, List.length_append, List.length_singleton]
    omega
  length_le_tail := by
    have hkept := c.length_le_tail
    rw [List.length_drop, List.length_append, List.length_singleton]
    omega

/-- The position of a receiver that is created now. -/
def subscribe (c : Channel α) : ℕ := c.tail

/-- The position of the oldest value that is kept. -/
def oldest (c : Channel α) : ℕ := c.tail - c.buffer.length

/-- What a receiver gets that wants the value of a position, and its next position. -/
def recv (c : Channel α) (next : ℕ) : Received α × ℕ :=
  if next < c.oldest then (.lagged (c.oldest - next), c.oldest)
  else match c.buffer[next - c.oldest]? with
    | some a => (.value a, next + 1)
    | none => (.empty, next)

/-- Of all values that were sent, those that are kept. -/
structure Keeps (c : Channel α) (sent : List α) : Prop where
  tail : c.tail = sent.length
  buffer : c.buffer = sent.drop (sent.length - c.capacity)

variable {c : Channel α} {sent : List α}

theorem keeps_new (capacity : ℕ) : (new capacity).Keeps ([] : List α) := ⟨rfl, by simp [new]⟩

theorem Keeps.send (h : c.Keeps sent) (a : α) : (c.send a).Keeps (sent ++ [a]) := by
  constructor
  · rw [List.length_append, List.length_singleton, ← h.tail]
    rfl
  · show (c.buffer ++ [a]).drop (c.buffer.length + 1 - c.capacity) = _
    have hlength : c.buffer.length = sent.length - (sent.length - c.capacity) := by
      rw [h.buffer, List.length_drop]
    have hkept : c.buffer ++ [a] = (sent ++ [a]).drop (sent.length - c.capacity) := by
      rw [h.buffer, List.drop_append_of_le_length (Nat.sub_le _ _)]
    rw [hkept, List.drop_drop, List.length_append, List.length_singleton, hlength]
    congr 1
    show _ = sent.length + 1 - c.capacity
    omega

/-- Values that are sent one after the other. -/
theorem Keeps.foldl_send (h : c.Keeps sent) (more : List α) :
    (more.foldl Channel.send c).Keeps (sent ++ more) := by
  induction more generalizing c sent with
  | nil => rwa [List.append_nil]
  | cons a more ih => rw [List.append_cons]; exact ih (h.send a)

theorem capacity_foldl_send (more : List α) (c : Channel α) :
    (more.foldl Channel.send c).capacity = c.capacity := by
  induction more generalizing c with
  | nil => rfl
  | cons a more ih => exact ih (c.send a)

theorem Keeps.oldest_eq (h : c.Keeps sent) : c.oldest = sent.length - c.capacity := by
  rw [oldest, h.tail, h.buffer, List.length_drop]
  omega

/-- **What a receiver gets.** -/
theorem recv_cases (h : c.Keeps sent) {next : ℕ} (hnext : next ≤ sent.length) :
    (c.recv next = (.empty, next) ∧ next = sent.length) ∨
    (∃ a, c.recv next = (.value a, next + 1) ∧ sent[next]? = some a ∧
      sent.length ≤ next + c.capacity) ∨
    (c.recv next = (.lagged (sent.length - c.capacity - next), sent.length - c.capacity) ∧
      next + c.capacity < sent.length) := by
  rw [recv, h.oldest_eq]
  by_cases hlag : next < sent.length - c.capacity
  · rw [if_pos hlag]
    exact .inr (.inr ⟨rfl, by omega⟩)
  · have hget : c.buffer[next - (sent.length - c.capacity)]? = sent[next]? := by
      rw [h.buffer, List.getElem?_drop]
      congr 1
      omega
    rw [if_neg hlag, hget]
    cases hvalue : sent[next]? with
    | none =>
      have hend : sent.length ≤ next := List.getElem?_eq_none_iff.mp hvalue
      exact .inl ⟨rfl, by omega⟩
    | some a => exact .inr (.inl ⟨a, rfl, rfl, by omega⟩)

end Channel
end Broadcast
