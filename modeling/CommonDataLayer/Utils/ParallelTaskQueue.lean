import CommonDataLayer.Foundations.Program

/-! # The permits of a task queue

`acquire_permit` adds the task to the queue of its key and waits for its turn. It is an
asynchronous function: the program below says what happens when its future is polled, and building
the future makes none of these calls.
-/
namespace CommonDataLayer.ParallelTaskQueue
open Interaction
set_option autoImplicit false

inductive Call where
  /-- Under the lock: find or insert the key's queue, and `add_task`. The answer names the
  receiver. -/
  | addTask (key : String)
  | receive (receiver : ℕ)
  /-- The `unwrap` of a receiver whose sender was dropped. -/
  | panic

abbrev Answer : Call → Type
  | .addTask _ => ℕ
  | .receive _ => Except Unit Unit
  | .panic => Empty

structure LockGuard where
  key : String
  deriving DecidableEq, Repr

def receive (receiver : ℕ) : Program Answer (Except Unit Unit) :=
  Program.perform (Call.receive receiver)

def acquirePermit (key : String) : Program Answer LockGuard := do
  let receiver ← Program.perform (.addTask key)
  match ← receive receiver with
  | .error () => .call .panic Empty.elim
  | .ok () => return { key := key }

end CommonDataLayer.ParallelTaskQueue
