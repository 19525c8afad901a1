import Mathlib.Data.List.Nodup
import Mathlib.Logic.Function.Basic
import CommonDataLayer.Foundations.Runs

/-! # Permits over all interleavings

Any number of calls of `acquire_permit`, on any keys. What happens under the mutex of the map is one
step: `addTask` at the first poll of a call, `end_task` when a guard is dropped. A call has one
channel, so its number stands for the sender that waits in the queue of its key.

* `Consistent`: the invariant of all runs. A blocked key has one holder at most, its queue holds the
  waiting calls in their order, and what a key does leaves the others alone.
* `exclusive_run`: mutual exclusion, order, independence and clean-up, while only futures that still
  wait are dropped.
* `released_iff`: a future that is dropped with its permit in the channel blocks its key for ever.
-/
namespace CommonDataLayer.ParallelTaskQueue
open TransitionSystem
set_option autoImplicit false

structure LockQueue where
  isBlocked : Bool
  /-- The senders. -/
  queue : List ℕ
  deriving DecidableEq, Repr

namespace LockQueue

def new : LockQueue := { isBlocked := false, queue := [] }

/-- The queue, and if the permit was sent at once. -/
def addTask (entry : LockQueue) (tx : ℕ) : LockQueue × Bool :=
  if entry.isBlocked then ({ entry with queue := entry.queue ++ [tx] }, false)
  else ({ entry with isBlocked := true }, true)

/-- `receives` says whose receiver is alive; the permit goes to the first of them. -/
def endTask (receives : ℕ → Bool) (isBlocked : Bool) : List ℕ → LockQueue × Option ℕ
  | [] => ({ isBlocked := false, queue := [] }, none)
  | tx :: queue =>
    if receives tx then ({ isBlocked := isBlocked, queue := queue }, some tx)
    else endTask receives isBlocked queue

end LockQueue

/-- How far a call of `acquire_permit` has come. -/
inductive Progress where
  /-- The future is not polled yet. -/
  | created
  | waiting
  /-- The permit is in the channel. -/
  | sent
  | guard
  /-- The guard is dropped. -/
  | released
  /-- The future is dropped. -/
  | cancelled
  deriving DecidableEq, Repr

structure State where
  locks : String → Option LockQueue
  calls : ℕ → Option (String × Progress)
  /-- The calls of `add_task`, in their order. -/
  added : List ℕ
  /-- The permits that were sent, in their order. -/
  granted : List ℕ

inductive Action where
  | acquirePermit (call : ℕ) (key : String)
  | addTask (call : ℕ)
  | receive (call : ℕ)
  | dropGuard (call : ℕ)
  | cancel (call : ℕ)

def Action.call : Action → ℕ
  | acquirePermit call _ => call
  | addTask call => call
  | receive call => call
  | dropGuard call => call
  | cancel call => call

namespace State

def new : State := { locks := fun _ => none, calls := fun _ => none, added := [], granted := [] }

def setCall (s : State) (call : ℕ) (key : String) (progress : Progress) : State :=
  { s with calls := Function.update s.calls call (some (key, progress)) }

def setLock (s : State) (key : String) (entry : Option LockQueue) : State :=
  { s with locks := Function.update s.locks key entry }

def receives (s : State) (call : ℕ) : Bool :=
  match s.calls call with
  | some (_, .waiting) => true
  | _ => false

/-- The first poll of a call. -/
def addTask (s : State) (call : ℕ) (key : String) : State :=
  let (entry, sent) := ((s.locks key).getD .new).addTask call
  let s := { s with added := s.added ++ [call] }.setLock key (some entry)
  if sent then { s.setCall call key .sent with granted := s.granted ++ [call] }
  else s.setCall call key .waiting

/-- The permit goes into the channel of a call. -/
def grant (s : State) (key : String) : Option ℕ → State
  | none => s
  | some next => { s.setCall next key .sent with granted := s.granted ++ [next] }

/-- `LockGuard::drop`, which has found this entry. -/
def dropGuard (s : State) (call : ℕ) (key : String) (entry : LockQueue) : State :=
  let (entry, next) := LockQueue.endTask s.receives entry.isBlocked entry.queue
  ((s.setCall call key .released).setLock key (if entry.isBlocked then some entry else none)).grant
    key next

inductive Step : State → Action → State → Prop where
  | acquirePermit {s : State} {call : ℕ} {key : String} (fresh : s.calls call = none) :
      Step s (.acquirePermit call key) (s.setCall call key .created)
  | addTask {s : State} {call : ℕ} {key : String} (polled : s.calls call = some (key, .created)) :
      Step s (.addTask call) (s.addTask call key)
  | receive {s : State} {call : ℕ} {key : String} (polled : s.calls call = some (key, .sent)) :
      Step s (.receive call) (s.setCall call key .guard)
  | dropGuard {s : State} {call : ℕ} {key : String} {entry : LockQueue}
      (held : s.calls call = some (key, .guard)) (found : s.locks key = some entry) :
      Step s (.dropGuard call) (s.dropGuard call key entry)
  | cancel {s : State} {call : ℕ} {key : String} {progress : Progress}
      (pending : s.calls call = some (key, progress))
      (future : progress = .created ∨ progress = .waiting ∨ progress = .sent) :
      Step s (.cancel call) (s.setCall call key .cancelled)

/-! ## What is required -/

/-- The call has a guard of the key, or its permit is in the channel. -/
def Holds (s : State) (call : ℕ) (key : String) : Prop :=
  s.calls call = some (key, .guard) ∨ s.calls call = some (key, .sent)

/-- The call is one for this key and not cancelled. -/
def live (s : State) (key : String) (call : ℕ) : Bool :=
  match s.calls call with
  | some (key', progress) => key' = key && progress ≠ .cancelled
  | none => false

structure Exclusive (s : State) : Prop where
  one : ∀ key call call', s.Holds call key → s.Holds call' key → call = call'
  inOrder : ∀ key, s.granted.filter (s.live key) <+: s.added.filter (s.live key)
  /-- A call waits for another one of its key. -/
  blocked : ∀ key call, s.calls call = some (key, .waiting) → ∃ holder, s.Holds holder key
  /-- `LockGuard::drop` finds its entry. -/
  found : ∀ key call, s.calls call = some (key, .guard) → s.locks key ≠ none
  /-- A key that nobody holds and nobody waits for is not in the map. -/
  removed : ∀ key, (∀ call, ¬ s.Holds call key) →
    (∀ call, s.calls call ≠ some (key, .waiting)) → s.locks key = none

/-- A blocked key has a holder. -/
def Released (s : State) : Prop :=
  ∀ key entry, s.locks key = some entry → entry.isBlocked = true → ∃ call, s.Holds call key

/-- A step of a call leaves the entry and the calls of all other keys as they are. -/
def LeavesOthers (t : Transition State Action) : Prop :=
  ∀ key progress, t.after.calls t.label.call = some (key, progress) → ∀ other, other ≠ key →
    t.after.locks other = t.before.locks other ∧ ∀ call progress',
      t.before.calls call = some (other, progress') → t.after.calls call = some (other, progress')

/-- A future is dropped only before its permit is sent. -/
def DropsUnsent (s : State) : Action → Prop
  | .cancel call => ∀ key, s.calls call ≠ some (key, .sent)
  | _ => True

/-! ## What the steps do -/

variable {s s' : State} {action : Action} {call : ℕ} {key : String} {entry : LockQueue}

/-- The senders that wait for a key. -/
def queueOf (s : State) (key : String) : List ℕ := ((s.locks key).map (·.queue)).getD []

/-- A call that goes on without being cancelled. -/
theorem live_congr (hcalls : ∀ other, s'.calls other = s.calls other ∨ ∃ key old new,
      s.calls other = some (key, old) ∧ s'.calls other = some (key, new) ∧
        old ≠ .cancelled ∧ new ≠ .cancelled) (key : String) : s'.live key = s.live key := by
  funext other
  obtain hsame | ⟨key', old, new, hold, hnew, hold', hnew'⟩ := hcalls other
  · simp [live, hsame]
  · simp [live, hold, hnew, hold', hnew']

/-- `end_task` passes over the dropped receivers. -/
theorem endTask_cases (receives : ℕ → Bool) (isBlocked : Bool) (queue : List ℕ) :
    (∃ dropped next rest, queue = dropped ++ next :: rest ∧ (∀ tx ∈ dropped, receives tx = false) ∧
      receives next = true ∧
      LockQueue.endTask receives isBlocked queue = (⟨isBlocked, rest⟩, some next)) ∨
    (∀ tx ∈ queue, receives tx = false) ∧
      LockQueue.endTask receives isBlocked queue = (⟨false, []⟩, none) := by
  induction queue with
  | nil => exact Or.inr ⟨List.forall_mem_nil _, rfl⟩
  | cons tx queue ih =>
    cases htx : receives tx with
    | true => exact Or.inl ⟨[], tx, queue, rfl, List.forall_mem_nil _, htx, by simp [LockQueue.endTask, htx]⟩
    | false =>
      obtain ⟨dropped, next, rest, rfl, hdropped, hnext, hend⟩ | ⟨hnone, hend⟩ := ih
      · exact Or.inl ⟨tx :: dropped, next, rest, rfl, List.forall_mem_cons.mpr ⟨htx, hdropped⟩, hnext,
          by simp [LockQueue.endTask, htx, hend]⟩
      · exact Or.inr ⟨List.forall_mem_cons.mpr ⟨htx, hnone⟩, by simp [LockQueue.endTask, htx, hend]⟩

theorem addTask_free (hfree : s.locks key = none) : s.addTask call key =
    { locks := Function.update s.locks key (some ⟨true, []⟩)
      calls := Function.update s.calls call (some (key, .sent))
      added := s.added ++ [call]
      granted := s.granted ++ [call] } := by
  simp [State.addTask, LockQueue.addTask, LockQueue.new, hfree, setLock, setCall]

theorem addTask_blocked (hlock : s.locks key = some entry) (hblocked : entry.isBlocked = true) :
    s.addTask call key =
      { locks := Function.update s.locks key (some { entry with queue := entry.queue ++ [call] })
        calls := Function.update s.calls call (some (key, .waiting))
        added := s.added ++ [call]
        granted := s.granted } := by
  simp [State.addTask, LockQueue.addTask, hlock, hblocked, setLock, setCall]

/-- The permit goes to the first call that still waits, if there is one. -/
theorem dropGuard_cases (s : State) (call : ℕ) (key : String) (hblocked : entry.isBlocked = true) :
    (∃ dropped next rest, entry.queue = dropped ++ next :: rest ∧
      (∀ tx ∈ dropped, s.receives tx = false) ∧ s.receives next = true ∧
      s.dropGuard call key entry =
        { locks := Function.update s.locks key (some ⟨true, rest⟩)
          calls := Function.update (Function.update s.calls call (some (key, .released))) next
            (some (key, .sent))
          added := s.added
          granted := s.granted ++ [next] }) ∨
    (∀ tx ∈ entry.queue, s.receives tx = false) ∧ s.dropGuard call key entry =
      { locks := Function.update s.locks key none
        calls := Function.update s.calls call (some (key, .released))
        added := s.added
        granted := s.granted } := by
  obtain ⟨dropped, next, rest, hqueue, hdropped, hnext, hend⟩ | ⟨hnone, hend⟩ :=
    endTask_cases s.receives true entry.queue
  · refine Or.inl ⟨dropped, next, rest, hqueue, hdropped, hnext, ?_⟩
    simp [State.dropGuard, hend, hblocked, grant, setLock, setCall]
  · refine Or.inr ⟨hnone, ?_⟩
    simp [State.dropGuard, hblocked, hend, grant, setLock, setCall]

@[simp] theorem setCall_locks (progress : Progress) : (s.setCall call key progress).locks = s.locks := rfl

@[simp] theorem setCall_added (progress : Progress) : (s.setCall call key progress).added = s.added := rfl

@[simp]
theorem setCall_granted (progress : Progress) : (s.setCall call key progress).granted = s.granted := rfl

@[simp]
theorem queueOf_setCall (progress : Progress) (other : String) :
    (s.setCall call key progress).queueOf other = s.queueOf other := rfl

/-! ## The invariant -/

structure Consistent (s : State) : Prop where
  entry : ∀ key entry, s.locks key = some entry → entry.isBlocked = true ∧ entry.queue.Nodup ∧
    ∀ call ∈ entry.queue, s.calls call = some (key, .waiting) ∨ s.calls call = some (key, .cancelled)
  waiting : ∀ key call, s.calls call = some (key, .waiting) →
    call ∈ s.added ∧ ∃ entry, s.locks key = some entry ∧ call ∈ entry.queue
  found : ∀ key call, s.Holds call key → s.locks key ≠ none
  one : ∀ key call call', s.Holds call key → s.Holds call' key → call = call'
  added : ∀ call ∈ s.added, ∃ key progress, s.calls call = some (key, progress) ∧ progress ≠ .created
  granted : ∀ call ∈ s.granted, call ∈ s.added
  inOrder : ∀ key, s.added.filter (s.live key) =
    s.granted.filter (s.live key) ++ (s.queueOf key).filter (s.live key)

theorem consistent_new : Consistent new := by
  constructor <;> simp [new, Holds, queueOf]

theorem mem_queueOf {other : ℕ} : other ∈ s.queueOf key ↔
    ∃ entry, s.locks key = some entry ∧ other ∈ entry.queue := by
  cases hlock : s.locks key <;> simp [queueOf, hlock]

/-- A new call is in none of the lists. -/
theorem Consistent.acquirePermit (h : Consistent s) (fresh : s.calls call = none) :
    Consistent (s.setCall call key .created) := by
  have hadded : call ∉ s.added := by
    intro hmem
    obtain ⟨_, _, hcall, _⟩ := h.added call hmem
    rw [fresh] at hcall
    cases hcall
  have hqueue : ∀ key', call ∉ s.queueOf key' := by
    intro key' hmem
    obtain ⟨entry, hlock, hmem⟩ := mem_queueOf.mp hmem
    obtain hcall | hcall := (h.entry key' entry hlock).2.2 call hmem <;>
    · rw [fresh] at hcall
      cases hcall
  have hfilter : ∀ key' (list : List ℕ), call ∉ list →
      list.filter ((s.setCall call key .created).live key') = list.filter (s.live key') := by
    intro key' list hnot
    refine List.filter_congr fun other hother => ?_
    have hne : other ≠ call := fun heq => hnot (heq ▸ hother)
    simp [live, setCall, hne]
  refine ⟨?_, ?_, ?_, ?_, ?_, h.granted, fun key' => ?_⟩
  case refine_6 =>
    rw [setCall_added, setCall_granted, queueOf_setCall, hfilter key' _ (hqueue key'), hfilter key' _ hadded,
      hfilter key' _ fun hmem => hadded (h.granted call hmem)]
    exact h.inOrder key'
  all_goals
    obtain ⟨hentry, hwaiting, hfound, hone, hknown, -, -⟩ := h
    simp only [setCall, Holds, Function.update_apply] at *
    grind

theorem Consistent.addTask (h : Consistent s) (polled : s.calls call = some (key, .created)) :
    Consistent (s.addTask call key) := by
  have hlive {s' : State} {new : Progress} (hcalls : s'.calls = Function.update s.calls call (some (key, new)))
      (hnew : new ≠ .cancelled) : ∀ key', s'.live key' = s.live key' := by
    refine live_congr fun other => ?_
    by_cases hother : other = call
    · exact Or.inr ⟨key, .created, new, hother ▸ polled, by simp [hcalls, hother], by decide, hnew⟩
    · exact Or.inl (by simp [hcalls, hother])
  have hkey : s.live key call = true := by simp [live, polled]
  have hother : ∀ key', key' ≠ key → s.live key' call = false := fun key' hne => by
    simp [live, polled, hne.symm]
  cases hlock : s.locks key with
  | none =>
    rw [addTask_free hlock]
    refine ⟨?_, ?_, ?_, ?_, ?_, ?_, fun key' => ?_⟩
    case refine_7 =>
      have hbefore := h.inOrder key'
      rw [hlive rfl (by decide)]
      by_cases hkey' : key' = key
      · subst hkey'
        simpa [queueOf, hlock, List.filter_append, hkey] using hbefore
      · simpa [queueOf, hkey', List.filter_append, hother key' hkey'] using hbefore
    all_goals
      obtain ⟨hentry, hwaiting, hfound, hone, hknown, hgranted, -⟩ := h
      simp only [Holds, Function.update_apply] at *
      grind
  | some entry =>
    rw [addTask_blocked hlock (h.entry key entry hlock).1]
    refine ⟨?_, ?_, ?_, ?_, ?_, ?_, fun key' => ?_⟩
    case refine_7 =>
      have hbefore := h.inOrder key'
      rw [hlive rfl (by decide)]
      by_cases hkey' : key' = key
      · subst hkey'
        have hqueue : s.queueOf key' = entry.queue := by simp [queueOf, hlock]
        rw [hqueue] at hbefore
        simp [queueOf, List.filter_append, hkey, hbefore]
      · simpa [queueOf, hkey', List.filter_append, hother key' hkey'] using hbefore
    all_goals
      obtain ⟨hentry, hwaiting, hfound, hone, hknown, hgranted, -⟩ := h
      simp only [Holds, Function.update_apply] at *
      grind

theorem Consistent.receive (h : Consistent s) (polled : s.calls call = some (key, .sent)) :
    Consistent (s.setCall call key .guard) := by
  have hlive : ∀ key', (s.setCall call key .guard).live key' = s.live key' := by
    refine live_congr fun other => ?_
    by_cases hother : other = call
    · exact Or.inr ⟨key, .sent, .guard, hother ▸ polled, by simp [setCall, hother], by decide, by decide⟩
    · exact Or.inl (by simp [setCall, hother])
  refine ⟨?_, ?_, ?_, ?_, ?_, h.granted, fun key' => ?_⟩
  case refine_6 =>
    rw [hlive]
    exact h.inOrder key'
  all_goals
    obtain ⟨hentry, hwaiting, hfound, hone, hknown, -, -⟩ := h
    simp only [setCall, Holds, Function.update_apply] at *
    grind

theorem Consistent.cancel {progress : Progress} (h : Consistent s)
    (pending : s.calls call = some (key, progress))
    (future : progress = .created ∨ progress = .waiting ∨ progress = .sent) :
    Consistent (s.setCall call key .cancelled) := by
  have hfilter : ∀ key' (list : List ℕ), list.filter ((s.setCall call key .cancelled).live key') =
      (list.filter (s.live key')).filter (· ≠ call) := by
    intro key' list
    rw [List.filter_filter]
    refine List.filter_congr fun other _ => ?_
    by_cases hother : other = call
    · simp [live, setCall, hother]
    · simp [live, setCall, hother]
  refine ⟨?_, ?_, ?_, ?_, ?_, h.granted, fun key' => ?_⟩
  case refine_6 =>
    rw [setCall_added, setCall_granted, queueOf_setCall, hfilter, hfilter, hfilter, h.inOrder key',
      List.filter_append]
  all_goals
    obtain ⟨hentry, hwaiting, hfound, hone, hknown, -, -⟩ := h
    simp only [setCall, Holds, Function.update_apply] at *
    grind

/-- Who is passed over was cancelled. -/
theorem Consistent.dropped (h : Consistent s) (hlock : s.locks key = some entry) {tx : ℕ}
    (hmem : tx ∈ entry.queue) (hdropped : s.receives tx = false) :
    s.calls tx = some (key, .cancelled) := by
  obtain hcall | hcall := (h.entry key entry hlock).2.2 tx hmem
  · simp [receives, hcall] at hdropped
  · exact hcall

theorem Consistent.next_waits (h : Consistent s) (hlock : s.locks key = some entry) {next : ℕ}
    (hmem : next ∈ entry.queue) (hnext : s.receives next = true) :
    s.calls next = some (key, .waiting) := by
  obtain hcall | hcall := (h.entry key entry hlock).2.2 next hmem
  · exact hcall
  · simp [receives, hcall] at hnext

theorem Consistent.inOrder_dropGuard (h : Consistent s) (held : s.calls call = some (key, .guard))
    (hlock : s.locks key = some entry) (key' : String) :
    let after := s.dropGuard call key entry
    after.added.filter (after.live key') =
      after.granted.filter (after.live key') ++ (after.queueOf key').filter (after.live key') := by
  have hbefore := h.inOrder key'
  obtain ⟨dropped, next, rest, hqueue, hdropped, hnext, hdrop⟩ | ⟨hnone, hdrop⟩ :=
    dropGuard_cases s call key (h.entry key entry hlock).1
  · have hwaits := h.next_waits hlock (by simp [hqueue]) hnext
    have hlive : (s.dropGuard call key entry).live key' = s.live key' := by
      rw [hdrop]
      refine live_congr (fun other => ?_) key'
      by_cases hother : other = next
      · exact Or.inr ⟨key, .waiting, .sent, hother ▸ hwaits, by simp [hother], by decide, by decide⟩
      · by_cases hcall : other = call
        · subst hcall
          exact Or.inr ⟨key, .guard, .released, held, by simp [hother], by decide, by decide⟩
        · exact Or.inl (by simp [hother, hcall])
    dsimp only
    rw [hlive, hdrop]
    by_cases hkey : key' = key
    · subst hkey
      have hpassed : dropped.filter (s.live key') = [] := List.filter_eq_nil_iff.mpr fun tx htx => by
        simp [live, h.dropped hlock (by simp [hqueue, htx]) (hdropped tx htx)]
      have hlast : s.live key' next = true := by simp [live, hwaits]
      have hold : s.queueOf key' = dropped ++ next :: rest := by simp [queueOf, hlock, hqueue]
      rw [hold, List.filter_append, hpassed, List.nil_append, List.filter_cons_of_pos hlast] at hbefore
      simp [queueOf, List.filter_append, hlast, hbefore]
    · have hskip : s.live key' next = false := by simp [live, hwaits, Ne.symm hkey]
      simpa [queueOf, hkey, List.filter_append, hskip] using hbefore
  · have hlive : (s.dropGuard call key entry).live key' = s.live key' := by
      rw [hdrop]
      refine live_congr (fun other => ?_) key'
      by_cases hcall : other = call
      · exact Or.inr ⟨key, .guard, .released, hcall ▸ held, by simp [hcall], by decide, by decide⟩
      · exact Or.inl (by simp [hcall])
    dsimp only
    rw [hlive, hdrop]
    by_cases hkey : key' = key
    · subst hkey
      have hpassed : entry.queue.filter (s.live key') = [] := List.filter_eq_nil_iff.mpr fun tx htx => by
        simp [live, h.dropped hlock htx (hnone tx htx)]
      simpa [queueOf, hlock, hpassed] using hbefore
    · simpa [queueOf, hkey] using hbefore

theorem Consistent.dropGuard (h : Consistent s) (held : s.calls call = some (key, .guard))
    (hlock : s.locks key = some entry) : Consistent (s.dropGuard call key entry) := by
  have hinOrder := h.inOrder_dropGuard held hlock
  obtain ⟨dropped, next, rest, hqueue, hdropped, hnext, hdrop⟩ | ⟨hnone, hdrop⟩ :=
    dropGuard_cases s call key (h.entry key entry hlock).1
  · have hwaits := h.next_waits hlock (by simp [hqueue]) hnext
    have hcancelled : ∀ tx ∈ dropped, s.calls tx = some (key, .cancelled) := fun tx htx =>
      h.dropped hlock (by simp [hqueue, htx]) (hdropped tx htx)
    have hnodup : (dropped ++ next :: rest).Nodup := hqueue ▸ (h.entry key entry hlock).2.1
    refine ⟨?_, ?_, ?_, ?_, ?_, ?_, hinOrder⟩ <;> rw [hdrop]
    all_goals
      obtain ⟨hentry, hwaiting, hfound, hone, hknown, hgranted, -⟩ := h
      simp only [Holds, Function.update_apply] at *
      grind
  · have hcancelled : ∀ tx ∈ entry.queue, s.calls tx = some (key, .cancelled) := fun tx htx =>
      h.dropped hlock htx (hnone tx htx)
    refine ⟨?_, ?_, ?_, ?_, ?_, ?_, hinOrder⟩ <;> rw [hdrop]
    all_goals
      obtain ⟨hentry, hwaiting, hfound, hone, hknown, hgranted, -⟩ := h
      simp only [Holds, Function.update_apply] at *
      grind

theorem Consistent.step (h : Consistent s) (hstep : Step s action s') : Consistent s' := by
  cases hstep with
  | acquirePermit fresh => exact h.acquirePermit fresh
  | addTask polled => exact h.addTask polled
  | receive polled => exact h.receive polled
  | dropGuard held found => exact h.dropGuard held found
  | cancel pending future => exact h.cancel pending future

/-! ## Holders -/

theorem released_new : Released new := by
  intro key entry hlock
  cases hlock

/-- A holder keeps its permit, hands it to the next call of its key, or is the last one. -/
theorem Released.step (hreleased : Released s) (h : Consistent s) (hstep : Step s action s')
    (hdrops : DropsUnsent s action) : Released s' := by
  cases hstep with
  | acquirePermit fresh =>
    simp only [Released, setCall, Holds, Function.update_apply] at *
    grind
  | @addTask call key polled =>
    cases hlock : s.locks key with
    | none =>
      rw [addTask_free hlock]
      simp only [Released, Holds, Function.update_apply] at *
      grind
    | some entry =>
      rw [addTask_blocked hlock (h.entry key entry hlock).1]
      simp only [Released, Holds, Function.update_apply] at *
      grind
  | receive polled =>
    simp only [Released, setCall, Holds, Function.update_apply] at *
    grind
  | @dropGuard call key entry held hlock =>
    obtain ⟨dropped, next, rest, hqueue, -, hnext, hdrop⟩ | ⟨-, hdrop⟩ :=
      dropGuard_cases s call key (h.entry key entry hlock).1
    · have hwaits := h.next_waits hlock (by simp [hqueue]) hnext
      rw [hdrop]
      simp only [Released, Holds, Function.update_apply] at *
      grind
    · rw [hdrop]
      simp only [Released, Holds, Function.update_apply] at *
      grind
  | @cancel call key progress pending future =>
    have hunsent : s.calls call ≠ some (key, .sent) := hdrops key
    simp only [Released, setCall, Holds, Function.update_apply] at *
    grind

/-- A future that is dropped with its permit was the only holder of its key. -/
theorem not_released_of_drop (h : Consistent s) (hstep : Step s action s')
    (hdrops : ¬ DropsUnsent s action) : ¬ Released s' := by
  cases hstep with
  | @cancel call key progress pending future =>
    have hsent : s.calls call = some (key, .sent) := by
      obtain ⟨key', hkey'⟩ := not_forall_not.mp hdrops
      rw [hkey', Option.some.injEq, Prod.mk.injEq] at pending
      rw [hkey', pending.1]
    obtain ⟨entry, hlock⟩ := Option.ne_none_iff_exists'.mp (h.found key call (Or.inr hsent))
    intro hreleased
    obtain ⟨holder, hholder⟩ := hreleased key entry hlock (h.entry key entry hlock).1
    have hne : holder ≠ call := by
      rintro rfl
      simp [Holds, setCall] at hholder
    have hholds : s.Holds holder key := by simpa [Holds, setCall, hne] using hholder
    exact hne (h.one key holder call hholds (Or.inr hsent))
  | _ => exact absurd trivial hdrops

/-! ## Other keys -/

theorem leavesOthers_step (h : Consistent s) (hstep : Step s action s') :
    LeavesOthers ⟨s, action, s'⟩ := by
  cases hstep with
  | acquirePermit fresh =>
    simp only [LeavesOthers, Action.call, setCall, Function.update_apply]
    grind
  | @addTask call key polled =>
    cases hlock : s.locks key with
    | none =>
      rw [addTask_free hlock]
      simp only [LeavesOthers, Action.call, Function.update_apply]
      grind
    | some entry =>
      rw [addTask_blocked hlock (h.entry key entry hlock).1]
      simp only [LeavesOthers, Action.call, Function.update_apply]
      grind
  | receive polled =>
    simp only [LeavesOthers, Action.call, setCall, Function.update_apply]
    grind
  | @dropGuard call key entry held hlock =>
    obtain ⟨dropped, next, rest, hqueue, -, hnext, hdrop⟩ | ⟨-, hdrop⟩ :=
      dropGuard_cases s call key (h.entry key entry hlock).1
    · have hwaits := h.next_waits hlock (by simp [hqueue]) hnext
      rw [hdrop]
      simp only [LeavesOthers, Action.call, Function.update_apply]
      grind
    · rw [hdrop]
      simp only [LeavesOthers, Action.call, Function.update_apply]
      grind
  | cancel pending future =>
    simp only [LeavesOthers, Action.call, setCall, Function.update_apply]
    grind

/-! ## Every run -/

theorem Consistent.exclusive (h : Consistent s) (hreleased : Released s) : Exclusive s where
  one := h.one
  inOrder key := by
    rw [h.inOrder key]
    exact List.prefix_append _ _
  blocked key call hwaits := by
    obtain ⟨-, entry, hlock, -⟩ := h.waiting key call hwaits
    exact hreleased key entry hlock (h.entry key entry hlock).1
  found key call hguard := h.found key call (Or.inl hguard)
  removed key hnobody _ := by
    by_contra hlock
    obtain ⟨entry, hlock⟩ := Option.ne_none_iff_exists'.mp hlock
    obtain ⟨holder, hholder⟩ := hreleased key entry hlock (h.entry key entry hlock).1
    exact hnobody holder hholder

/-- What holds as long as no sent permit is dropped. -/
structure Kept (s : State) : Prop where
  consistent : Consistent s
  released : Released s

theorem kept_new : Kept new := { consistent := consistent_new, released := released_new }

theorem kept_step (s : State) (action : Action) (s' : State) (h : Kept s) (hstep : Step s action s')
    (hdrops : DropsUnsent s action) : Kept s' :=
  { consistent := h.consistent.step hstep, released := h.released.step h.consistent hstep hdrops }

variable {ts : List (Transition State Action)}

/-- **Mutual exclusion, order, independence and clean-up, as long as only futures are dropped that
still wait for their permit.** -/
theorem exclusive_run (hrun : Run Step new ts s) (hdrops : ∀ t ∈ ts, DropsUnsent t.before t.label) :
    (∀ s ∈ states new ts, Exclusive s) ∧ ∀ t ∈ ts, LeavesOthers t := by
  obtain ⟨-, hkept⟩ := hrun.invariant kept_new kept_step hdrops
  constructor
  · intro s hs
    have hs : Kept s := hrun.invariant_states kept_new kept_step hdrops s hs
    exact hs.consistent.exclusive hs.released
  · intro t ht
    exact leavesOthers_step (hkept t ht).1.consistent (hrun.step_of_mem ht)

/-- **Every blocked key has a holder in all states of a run, exactly if no future is dropped whose
permit was sent.** -/
theorem released_iff (hrun : Run Step new ts s) :
    (∀ s ∈ states new ts, Released s) ↔ ∀ t ∈ ts, DropsUnsent t.before t.label :=
  hrun.states_iff kept_new (fun _ h => h.released) kept_step
    fun _ _ _ h => not_released_of_drop h.consistent

/-! ### Two calls of one key -/

/-- The first call has its guard, the second one waits. -/
def guarded : State :=
  ((((new.setCall 0 "a" .created).addTask 0 "a").setCall 0 "a" .guard).setCall 1 "a" .created).addTask 1 "a"

/-- The guard is dropped, and the permit is in the channel of the second call. -/
def handedOver : State := guarded.dropGuard 0 "a" { isBlocked := true, queue := [1] }

theorem run_guarded : ∃ ts, Run Step new ts guarded ∧ ∀ t ∈ ts, DropsUnsent t.before t.label := by
  have hfirst : Step new (.acquirePermit 0 "a") _ := .acquirePermit rfl
  have hadds : Step (new.setCall 0 "a" .created) (.addTask 0) _ := .addTask rfl
  have hreceives : Step ((new.setCall 0 "a" .created).addTask 0 "a") (.receive 0) _ := .receive rfl
  have hsecond : Step (((new.setCall 0 "a" .created).addTask 0 "a").setCall 0 "a" .guard)
      (.acquirePermit 1 "a") _ := .acquirePermit rfl
  have hwaits : Step ((((new.setCall 0 "a" .created).addTask 0 "a").setCall 0 "a" .guard).setCall 1 "a"
      .created) (.addTask 1) guarded := .addTask rfl
  refine ⟨_, ((((Run.start.step hfirst).step hadds).step hreceives).step hsecond).step hwaits, ?_⟩
  simp [DropsUnsent]

theorem step_handedOver : Step guarded (.dropGuard 0) handedOver := .dropGuard rfl rfl

/-- The first guard is dropped, and the second call takes its permit. -/
theorem exclusive_run_handedOver : ∃ ts s, Run Step new ts s ∧ s.calls 1 = some ("a", .guard) ∧
    s.granted = [0, 1] ∧ (∀ s ∈ states new ts, Exclusive s) ∧ ∀ t ∈ ts, LeavesOthers t := by
  obtain ⟨ts, hrun, hdrops⟩ := run_guarded
  have hreceives : Step handedOver (.receive 1) (handedOver.setCall 1 "a" .guard) := .receive rfl
  have hrun' := (hrun.step step_handedOver).step hreceives
  refine ⟨_, _, hrun', rfl, rfl, exclusive_run hrun' ?_⟩
  simp only [List.forall_mem_append, List.forall_mem_singleton]
  exact ⟨⟨hdrops, trivial⟩, trivial⟩

/-- The second call stops waiting, and the guard is dropped. -/
theorem released_cancelled : ∃ ts s, Run Step new ts s ∧ s.calls 1 = some ("a", .cancelled) ∧
    ∀ s ∈ states new ts, Released s := by
  obtain ⟨ts, hrun, hdrops⟩ := run_guarded
  have hcancels : Step guarded (.cancel 1) (guarded.setCall 1 "a" .cancelled) :=
    .cancel rfl (by decide)
  have hlast : Step (guarded.setCall 1 "a" .cancelled) (.dropGuard 0) _ := .dropGuard rfl rfl
  have hrun' := (hrun.step hcancels).step hlast
  refine ⟨_, _, hrun', rfl, (released_iff hrun').mpr ?_⟩
  simp only [List.forall_mem_append, List.forall_mem_singleton]
  refine ⟨⟨hdrops, ?_⟩, trivial⟩
  intro key hsent
  cases hsent

/-- The second call is dropped after its permit was sent, and the key stays blocked. -/
theorem not_released_cancelled : ¬ ∀ ts s, Run Step new ts s → ∀ s ∈ states new ts, Released s := by
  intro h
  obtain ⟨ts, hrun, -⟩ := run_guarded
  have hcancels : Step handedOver (.cancel 1) (handedOver.setCall 1 "a" .cancelled) :=
    .cancel rfl (by decide)
  have hrun' := (hrun.step step_handedOver).step hcancels
  obtain ⟨holder, hholder⟩ := h _ _ hrun' _ hrun'.last_mem_states "a" _ rfl rfl
  have hcalls : ∀ call, (handedOver.setCall 1 "a" .cancelled).calls call =
      if call = 1 then some ("a", .cancelled) else if call = 0 then some ("a", .released) else none := by
    intro call
    simp [handedOver, guarded, State.dropGuard, LockQueue.endTask, receives, State.addTask, setCall,
      setLock, grant, new, Function.update_apply, LockQueue.addTask, LockQueue.new]
    grind
  simp only [Holds, hcalls] at hholder
  grind

end State
end CommonDataLayer.ParallelTaskQueue
