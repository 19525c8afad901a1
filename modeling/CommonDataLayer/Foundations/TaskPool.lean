import Mathlib.Logic.Relation
import CommonDataLayer.Foundations.Protocol

/-! # A consumer that spawns one task per message

A loop takes messages from a stream. For each of them it waits for one of `limit` permits and then
spawns a task, which gives its permit back when it ends. The spawned tasks make their calls one at
a time, in any order among the tasks.

* `Host`: the world the calls are answered in. It also says which calls unwind their task and
  which end the process.
* `Consumer.Step`: one step of the loop, of a task, or of the process.
* `Sound`: what every reachable pool satisfies. The tasks are the messages taken so far, and the
  logged calls of a task are a trace of its body that has arrived where the task stands.
* `Sound.allows`, `Sound.allowed`: tasks that follow a protocol only make calls that it allows.
-/
namespace Interaction
set_option autoImplicit false

/-- The surroundings of the tasks that handle the messages `M` with the calls `Q`. -/
structure Host (M : Type) {Q : Type} (A : Q → Type) where
  World : Type
  /-- What the world does when the stream yields a message. -/
  take : M → World → World → Prop
  /-- Yielding the message ends the process. -/
  takeAborts : M → World → Prop
  /-- The task of the message gets this answer to the call. -/
  answer : M → (q : Q) → World → A q → World → Prop
  /-- The call unwinds the task of the message. -/
  panics : M → Q → World → World → Prop
  /-- The call ends the process. -/
  aborts : M → Q → World → Prop

/-- A consumer: its surroundings, its number of permits and the body of its tasks. -/
structure Consumer (M : Type) {Q : Type} (A : Q → Type) extends Host M A where
  limit : ℕ
  body : M → Program A Unit
  /-- An error yielded by the stream ends the process (otherwise the loop goes on). -/
  fetchErrorAborts : Bool

/-- The state of a consumer. -/
structure Pool (M : Type) {Q : Type} (A : Q → Type) (W : Type) where
  /-- What the stream has still to yield. -/
  stream : List M
  /-- The message that waits for a permit. -/
  held : Option M
  /-- The spawned tasks, in spawn order, each with the rest of its body; `none` once it ended. -/
  tasks : List (M × Option (Program A Unit))
  /-- The answered calls, each with the number of its task. -/
  log : List (ℕ × Event A)
  world : W
  aborted : Bool

namespace Pool
variable {M Q W : Type} {A : Q → Type}

/-- The permits in use. -/
def live (s : Pool M A W) : ℕ := s.tasks.countP fun t => t.2.isSome

/-- The answered calls of task `i`. -/
def logOf (s : Pool M A W) (i : ℕ) : List (Event A) :=
  s.log.filterMap fun e => if e.1 = i then some e.2 else none

/-- The messages taken from the stream. -/
def taken (s : Pool M A W) : List M := s.tasks.map Prod.fst ++ s.held.toList

/-- Before the first message. -/
def start (messages : List M) (w : W) : Pool M A W :=
  { stream := messages, held := none, tasks := [], log := [], world := w, aborted := false }

theorem mem_logOf {s : Pool M A W} {i : ℕ} {e : Event A} : e ∈ s.logOf i ↔ (i, e) ∈ s.log := by
  rw [logOf, List.mem_filterMap]
  constructor
  · rintro ⟨⟨j, event⟩, hmem, hevent⟩
    obtain ⟨rfl, heq⟩ := Option.ite_none_right_eq_some.mp hevent
    cases heq
    exact hmem
  · intro hmem
    exact ⟨_, hmem, if_pos rfl⟩

end Pool

namespace Consumer
variable {M Q : Type} {A : Q → Type}

/-- The rest of a task that may end here. -/
def Ended (C : Consumer M A) (m : M) (rest : Program A Unit) : Prop :=
  rest = .ret () ∨ ∃ q next w w', rest = .call q next ∧ C.panics m q w w'

/-- One step of a consumer. -/
inductive Step (C : Consumer M A) : Pool M A C.World → Pool M A C.World → Prop where
  | take {s : Pool M A C.World} {m : M} {rest : List M} {w : C.World}
      (running : s.aborted = false) (free : s.held = none) (next : s.stream = m :: rest)
      (taken : C.take m s.world w) :
      Step C s { s with stream := rest, held := some m, world := w }
  | takeAborts {s : Pool M A C.World} {m : M} {rest : List M}
      (running : s.aborted = false) (free : s.held = none) (next : s.stream = m :: rest)
      (fatal : C.takeAborts m s.world) : Step C s { s with aborted := true }
  | fetchError {s : Pool M A C.World} (running : s.aborted = false) (free : s.held = none) :
      Step C s { s with aborted := C.fetchErrorAborts }
  | spawn {s : Pool M A C.World} {m : M} (running : s.aborted = false)
      (waiting : s.held = some m) (permit : s.live < C.limit) :
      Step C s { s with held := none, tasks := s.tasks ++ [(m, some (C.body m))] }
  | answer {s : Pool M A C.World} {i : ℕ} {m : M} {q : Q} {next : A q → Program A Unit} {a : A q}
      {w : C.World} (running : s.aborted = false)
      (pending : s.tasks[i]? = some (m, some (.call q next)))
      (answered : C.answer m q s.world a w) :
      Step C s { s with tasks := s.tasks.set i (m, some (next a)),
                        log := s.log ++ [(i, ⟨q, a⟩)], world := w }
  | finish {s : Pool M A C.World} {i : ℕ} {m : M} (running : s.aborted = false)
      (returned : s.tasks[i]? = some (m, some (.ret ()))) :
      Step C s { s with tasks := s.tasks.set i (m, none) }
  | panic {s : Pool M A C.World} {i : ℕ} {m : M} {q : Q} {next : A q → Program A Unit}
      {w : C.World} (running : s.aborted = false)
      (pending : s.tasks[i]? = some (m, some (.call q next)))
      (unwinds : C.panics m q s.world w) :
      Step C s { s with tasks := s.tasks.set i (m, none), world := w }
  | abort {s : Pool M A C.World} {i : ℕ} {m : M} {q : Q} {next : A q → Program A Unit}
      (running : s.aborted = false) (pending : s.tasks[i]? = some (m, some (.call q next)))
      (fatal : C.aborts m q s.world) : Step C s { s with aborted := true }

/-- The states of a consumer of `messages` that starts in the world `w`. -/
abbrev Reachable (C : Consumer M A) (messages : List M) (w : C.World)
    (s : Pool M A C.World) : Prop :=
  Relation.ReflTransGen C.Step (Pool.start messages w) s

/-- An invariant of the steps holds in every reachable state. -/
theorem invariant {C : Consumer M A} {messages : List M} {w : C.World}
    {P : Pool M A C.World → Prop} (start : P (Pool.start messages w))
    (step : ∀ s s', C.Reachable messages w s → P s → C.Step s s' → P s')
    {s : Pool M A C.World} (h : C.Reachable messages w s) : P s := by
  induction h with
  | refl => exact start
  | tail hr hs ih => exact step _ _ hr ih hs

end Consumer

/-! ## What every reachable pool satisfies -/

namespace Consumer
variable {M Q : Type} {A : Q → Type} {C : Consumer M A}

/-- The tasks are the taken messages and stand where their logged calls have led them. -/
structure Sound (C : Consumer M A) (messages : List M) (s : Pool M A C.World) : Prop where
  source : s.taken ++ s.stream = messages
  bound : ∀ e ∈ s.log, e.1 < s.tasks.length
  trace : ∀ i m o, s.tasks[i]? = some (m, o) → ∃ rest, Steps (C.body m) (s.logOf i) rest ∧
    (∀ p, o = some p → p = rest) ∧ (o = none → C.Ended m rest)

theorem logOf_append {W : Type} (s : Pool M A W) (i j : ℕ) (e : Event A)
    (tasks : List (M × Option (Program A Unit))) (w : W) :
    ({ s with tasks := tasks, log := s.log ++ [(i, e)], world := w } : Pool M A W).logOf j =
      s.logOf j ++ if i = j then [e] else [] := by
  simp only [Pool.logOf, List.filterMap_append]
  congr 1
  by_cases h : i = j <;> simp [h]

theorem Sound.logOf_new {messages : List M} {s : Pool M A C.World} (hs : C.Sound messages s)
    {j : ℕ} (hj : s.tasks.length ≤ j) : s.logOf j = [] := by
  refine List.filterMap_eq_nil_iff.mpr fun e he => ?_
  have hb := hs.bound e he
  rw [if_neg (by omega)]

theorem map_fst_set {tasks : List (M × Option (Program A Unit))} {i : ℕ} {m : M}
    {o o' : Option (Program A Unit)} (h : tasks[i]? = some (m, o)) :
    (tasks.set i (m, o')).map Prod.fst = tasks.map Prod.fst := by
  refine List.ext_getElem? fun j => ?_
  by_cases hij : i = j
  · subst hij
    obtain ⟨hi, he⟩ := List.getElem?_eq_some_iff.mp h
    simp [hi, he]
  · simp [List.getElem?_set_ne hij]

theorem Sound.start (messages : List M) (w : C.World) :
    C.Sound messages (Pool.start messages w) where
  source := by simp [Pool.start, Pool.taken]
  bound := by simp [Pool.start]
  trace := by simp [Pool.start]

/-- A task that does not make an answered call in this step keeps its log; only its rest may
change, and only by ending. -/
theorem Sound.set_none {messages : List M} {s : Pool M A C.World} (hs : C.Sound messages s)
    {i : ℕ} {m : M} {p : Program A Unit} (hi : s.tasks[i]? = some (m, some p))
    (hp : C.Ended m p) (w : C.World) :
    C.Sound messages { s with tasks := s.tasks.set i (m, none), world := w } where
  source := by
    have h := hs.source
    simp only [Pool.taken] at h ⊢
    rw [map_fst_set hi]
    exact h
  bound := fun e he => by simpa using hs.bound e he
  trace := by
    intro j m' o hj
    show ∃ rest, Steps (C.body m') (s.logOf j) rest ∧ _
    by_cases hij : i = j
    · subst hij
      obtain ⟨hlt, _⟩ := List.getElem?_eq_some_iff.mp hi
      simp only [List.getElem?_set_self hlt, Option.some.injEq, Prod.mk.injEq] at hj
      obtain ⟨rfl, rfl⟩ := hj
      obtain ⟨rest, ht, hr, _⟩ := hs.trace i m (some p) hi
      exact ⟨rest, ht, by simp, fun _ => hr p rfl ▸ hp⟩
    · rw [List.getElem?_set_ne hij] at hj
      exact hs.trace j m' o hj

theorem Sound.step {messages : List M} {s s' : Pool M A C.World} (hs : C.Sound messages s)
    (h : C.Step s s') : C.Sound messages s' := by
  cases h with
  | take running free next taken =>
    refine ⟨?_, hs.bound, hs.trace⟩
    have h := hs.source
    simp only [Pool.taken, free, next, Option.toList_none, Option.toList_some] at h ⊢
    simpa using h
  | takeAborts => exact ⟨hs.source, hs.bound, hs.trace⟩
  | fetchError => exact ⟨hs.source, hs.bound, hs.trace⟩
  | @spawn m running waiting permit =>
    refine ⟨?_, ?_, ?_⟩
    · have h := hs.source
      simp only [Pool.taken, waiting, Option.toList_none, Option.toList_some] at h ⊢
      simpa using h
    · intro e he
      have hb := hs.bound e he
      simp only [List.length_append, List.length_singleton]
      omega
    · intro j m' o hj
      show ∃ rest, Steps (C.body m') (s.logOf j) rest ∧ _
      rcases Nat.lt_trichotomy j s.tasks.length with hlt | rfl | hgt
      · rw [List.getElem?_append_left hlt] at hj
        exact hs.trace j m' o hj
      · simp only [List.getElem?_concat_length, Option.some.injEq, Prod.mk.injEq] at hj
        obtain ⟨rfl, rfl⟩ := hj
        exact ⟨C.body m, by simp [hs.logOf_new (Nat.le_refl _)], by simp, by simp⟩
      · rw [List.getElem?_eq_none (by simp; omega)] at hj
        cases hj
  | @answer i m q next a w running pending answered =>
    obtain ⟨hlt, _⟩ := List.getElem?_eq_some_iff.mp pending
    refine ⟨?_, ?_, ?_⟩
    · have h := hs.source
      simp only [Pool.taken] at h ⊢
      rw [map_fst_set pending]
      exact h
    · intro e he
      simp only [List.length_set]
      rcases List.mem_append.mp he with he | he
      · exact hs.bound e he
      · rw [List.mem_singleton.mp he]
        exact hlt
    · intro j m' o hj
      rw [logOf_append]
      by_cases hij : i = j
      · subst hij
        simp only [List.getElem?_set_self hlt, Option.some.injEq, Prod.mk.injEq] at hj
        obtain ⟨rfl, rfl⟩ := hj
        obtain ⟨rest, ht, hr, _⟩ := hs.trace i m _ pending
        have hrest := hr _ rfl
        subst hrest
        refine ⟨next a, ?_, by simp, by simp⟩
        rw [if_pos rfl]
        exact ht.trans (.call (.refl _))
      · rw [List.getElem?_set_ne hij] at hj
        rw [if_neg hij, List.append_nil]
        exact hs.trace j m' o hj
  | finish running returned => exact hs.set_none returned (.inl rfl) _
  | panic running pending unwinds =>
    exact hs.set_none pending (.inr ⟨_, _, _, _, rfl, unwinds⟩) _
  | abort => exact ⟨hs.source, hs.bound, hs.trace⟩

theorem sound {messages : List M} {w : C.World} {s : Pool M A C.World}
    (h : C.Reachable messages w s) : C.Sound messages s :=
  invariant (Sound.start messages w) (fun _ _ _ hs hstep => hs.step hstep) h

theorem taken_set {W : Type} {s : Pool M A W} {i : ℕ} {m : M} {o o' : Option (Program A Unit)}
    (h : s.tasks[i]? = some (m, o)) (log : List (ℕ × Event A)) (w : W) :
    ({ s with tasks := s.tasks.set i (m, o'), log := log, world := w } : Pool M A W).taken =
      s.taken := by
  simp only [Pool.taken, map_fst_set h]

/-- What a step does to the taken messages, the log and the world. -/
theorem Step.effect {s s' : Pool M A C.World} (h : C.Step s s') :
    (∃ m, s.stream = m :: s'.stream ∧ s'.taken = s.taken ++ [m] ∧ s'.log = s.log ∧
      C.take m s.world s'.world) ∨
    (∃ i m q next a, s.tasks[i]? = some (m, some (.call q next)) ∧ s'.taken = s.taken ∧
      s'.log = s.log ++ [(i, ⟨q, a⟩)] ∧ C.answer m q s.world a s'.world) ∨
    (∃ m q, s'.taken = s.taken ∧ s'.log = s.log ∧ C.panics m q s.world s'.world) ∨
    (s'.taken = s.taken ∧ s'.log = s.log ∧ s'.world = s.world) := by
  cases h with
  | @take m rest w running free next taken =>
    exact .inl ⟨m, next, by simp [Pool.taken, free], rfl, taken⟩
  | takeAborts => exact .inr (.inr (.inr ⟨rfl, rfl, rfl⟩))
  | fetchError => exact .inr (.inr (.inr ⟨rfl, rfl, rfl⟩))
  | spawn running waiting permit =>
    exact .inr (.inr (.inr ⟨by simp [Pool.taken, waiting], rfl, rfl⟩))
  | answer running pending answered =>
    exact .inr (.inl ⟨_, _, _, _, _, pending, taken_set pending _ _, rfl, answered⟩)
  | finish running returned =>
    exact .inr (.inr (.inr ⟨taken_set returned s.log s.world, rfl, rfl⟩))
  | panic running pending unwinds =>
    exact .inr (.inr (.inl ⟨_, _, taken_set pending s.log _, rfl, unwinds⟩))
  | abort => exact .inr (.inr (.inr ⟨rfl, rfl, rfl⟩))

/-- A task handles the message that was taken under its number. -/
theorem taken_of_task {W : Type} {s : Pool M A W} {i : ℕ} {m : M}
    {o : Option (Program A Unit)} (h : s.tasks[i]? = some (m, o)) : s.taken[i]? = some m := by
  obtain ⟨hlt, _⟩ := List.getElem?_eq_some_iff.mp h
  rw [Pool.taken, List.getElem?_append_left (by simpa using hlt), List.getElem?_map, h]
  rfl

theorem Sound.taken_message {messages : List M} {s : Pool M A C.World} (hs : C.Sound messages s)
    {i : ℕ} {m : M} (hi : s.taken[i]? = some m) : messages[i]? = some m := by
  obtain ⟨hlt, _⟩ := List.getElem?_eq_some_iff.mp hi
  rw [← hs.source, List.getElem?_append_left hlt, hi]

/-- A taken message keeps its number: task `i` handles message `i` of the stream. -/
theorem Sound.message {messages : List M} {s : Pool M A C.World} (hs : C.Sound messages s)
    {i : ℕ} {m : M} {o : Option (Program A Unit)} (hi : s.tasks[i]? = some (m, o)) :
    messages[i]? = some m :=
  hs.taken_message (taken_of_task hi)

/-- What led a task to an answered call. -/
theorem Sound.before {messages : List M} {s : Pool M A C.World} (hs : C.Sound messages s)
    {i : ℕ} {m : M} (hm : messages[i]? = some m) {e : Event A} (he : (i, e) ∈ s.log) :
    ∃ t₁ t₂ next, s.logOf i = t₁ ++ e :: t₂ ∧ Steps (C.body m) t₁ (.call e.1 next) := by
  have hb : i < s.tasks.length := hs.bound (i, e) he
  have hi : s.tasks[i]? = some s.tasks[i] := List.getElem?_eq_getElem hb
  have hmi : s.tasks[i].1 = m := by
    have h := hs.message (i := i) (m := s.tasks[i].1) (o := s.tasks[i].2) hi
    rw [hm] at h
    exact (Option.some.inj h).symm
  obtain ⟨rest, ht, _⟩ := hs.trace i s.tasks[i].1 s.tasks[i].2 hi
  rw [hmi] at ht
  have hmem : e ∈ s.logOf i := List.mem_filterMap.mpr ⟨(i, e), he, by simp⟩
  obtain ⟨t₁, t₂, hsplit⟩ := List.append_of_mem hmem
  rw [hsplit] at ht
  obtain ⟨mid, h₁, h₂⟩ := steps_append.mp ht
  obtain ⟨next, rfl, _⟩ := h₂.cons_inv
  exact ⟨t₁, t₂, next, hsplit, h₁⟩

/-- A task runs alone along a trace of its body, if its calls leave the world as it is. -/
theorem run_task {p p' : Program A Unit} {t : List (Event A)} (ht : Steps p t p')
    {s : Pool M A C.World} {i : ℕ} {m : M} (running : s.aborted = false)
    (hi : s.tasks[i]? = some (m, some p)) (answered : ∀ e ∈ t, C.answer m e.1 s.world e.2 s.world) :
    Relation.ReflTransGen C.Step s
      { s with tasks := s.tasks.set i (m, some p'), log := s.log ++ t.map fun e => (i, e) } := by
  induction ht generalizing s with
  | refl p =>
    have hset : s.tasks.set i (m, some p) = s.tasks := by
      refine List.ext_getElem? fun j => ?_
      by_cases hij : i = j
      · subst hij
        obtain ⟨hlt, he⟩ := List.getElem?_eq_some_iff.mp hi
        rw [List.getElem?_set_self hlt, hi]
      · rw [List.getElem?_set_ne hij]
    simp only [List.map_nil, List.append_nil, hset]
    exact .refl
  | @call q next a t p' rest ih =>
    obtain ⟨hanswer, hrest⟩ := List.forall_mem_cons.mp answered
    obtain ⟨hlt, _⟩ := List.getElem?_eq_some_iff.mp hi
    have hrun := ih (s := { s with tasks := s.tasks.set i (m, some (next a)),
                                   log := s.log ++ [(i, ⟨q, a⟩)], world := s.world })
      running (List.getElem?_set_self hlt) hrest
    simp only [List.set_set, List.append_assoc, List.singleton_append] at hrun
    exact .head (.answer running hi hanswer) hrun

section Protocol
variable {Phase : Type} {P : Protocol A Phase} {phase : Phase} {post : Unit → Phase → Prop}

/-- The pending call of a task. -/
theorem Sound.allows {messages : List M} {s : Pool M A C.World} (hs : C.Sound messages s)
    (hbody : ∀ m, (C.body m).Follows P post phase) {i : ℕ} {m : M} {q : Q} {next : A q → Program A Unit}
    (pending : s.tasks[i]? = some (m, some (.call q next))) : P.Allows (P.reached phase (s.logOf i)) q := by
  obtain ⟨rest, htrace, hrest, -⟩ := hs.trace i m _ pending
  obtain rfl := hrest _ rfl
  exact ((hbody m).steps htrace).1

/-- A call that was answered. -/
theorem Sound.allowed {messages : List M} {s : Pool M A C.World} (hs : C.Sound messages s)
    (hbody : ∀ m, (C.body m).Follows P post phase) {i : ℕ} {e : Event A} (he : (i, e) ∈ s.log) :
    ∃ t₁ t₂, s.logOf i = t₁ ++ e :: t₂ ∧ P.Allows (P.reached phase t₁) e.1 := by
  obtain ⟨t₁, t₂, next, hlog, htrace⟩ :=
    hs.before (hs.message (List.getElem?_eq_getElem (hs.bound _ he))) he
  exact ⟨t₁, t₂, hlog, ((hbody _).steps htrace).1⟩

end Protocol

end Consumer
end Interaction
