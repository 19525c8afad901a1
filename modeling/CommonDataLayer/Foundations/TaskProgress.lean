import Mathlib.Logic.Hydra
import CommonDataLayer.Foundations.TaskOrder

/-! # How far a consumer gets

* `Consumer.terminates`: every run of a consumer over finitely many messages is finite, if an error
  of the stream ends the process.
* `Consumer.Idle`: nothing can happen any more that leaves the process alive. With a permit, and if
  every call that is waited for can be answered, all messages were handled then (`Open.done_of_idle`).
* `Open.serve`, `Open.reach_next`: messages whose tasks return are handled one after the other.
-/
namespace Interaction
set_option autoImplicit false

variable {M Q : Type} {A : Q → Type}

/-! ## Every run is finite -/

/-- What a program goes on with after an answer. -/
def Program.After {α : Type} (p' p : Program A α) : Prop :=
  ∃ q next a, p = .call q next ∧ p' = next a

theorem Program.wellFounded_after {α : Type} :
    WellFounded (Program.After : Program A α → Program A α → Prop) := by
  refine ⟨fun p => ?_⟩
  induction p with
  | ret b =>
    refine ⟨_, fun p' h => ?_⟩
    obtain ⟨q, next, a, hp, -⟩ := h
    cases hp
  | call q next ih =>
    refine ⟨_, fun p' h => ?_⟩
    obtain ⟨q', next', a, hp, rfl⟩ := h
    cases hp
    exact ih a

namespace Pool
variable {W : Type}

/-- A message counts until it is spawned, and more before it is taken. -/
def waiting (s : Pool M A W) : ℕ := 2 * s.stream.length + s.held.toList.length

/-- What the tasks have still to do. -/
def running (s : Pool M A W) : Multiset (Program A Unit) := ↑(s.tasks.filterMap (·.2))

theorem filterMap_set {tasks : List (M × Option (Program A Unit))} {i : ℕ} {m : M}
    {p : Program A Unit} (h : tasks[i]? = some (m, some p)) (o : Option (Program A Unit)) :
    (↑((tasks.set i (m, o)).filterMap (·.2)) + {p} : Multiset (Program A Unit)) =
      ↑(tasks.filterMap (·.2)) + ↑o.toList := by
  induction tasks generalizing i with
  | nil => cases h
  | cons task tasks ih =>
    cases i with
    | zero =>
      obtain rfl : task = (m, some p) := Option.some.inj h
      rw [← Multiset.coe_singleton, Multiset.coe_add, Multiset.coe_add, Multiset.coe_eq_coe]
      cases o with
      | none =>
        rw [Option.toList_none, List.append_nil]
        exact List.perm_append_singleton p _
      | some p' =>
        exact (List.perm_append_singleton p _).trans
          ((List.Perm.swap _ _ _).trans (List.perm_append_singleton p' _).symm)
    | succ i =>
      have hrest := ih h
      rw [List.set_cons_succ]
      cases hrunning : task.2 with
      | none => rwa [List.filterMap_cons_none hrunning, List.filterMap_cons_none hrunning]
      | some other =>
        rw [List.filterMap_cons_some hrunning, List.filterMap_cons_some hrunning,
          ← Multiset.cons_coe, ← Multiset.cons_coe, Multiset.cons_add, Multiset.cons_add, hrest]

end Pool

namespace Consumer
variable {C : Consumer M A}

theorem Step.alive {s s' : Pool M A C.World} (h : C.Step s s') : s.aborted = false := by
  cases h <;> assumption

/-- A step that leaves the process alive takes or spawns a message, or takes a task further. -/
theorem Step.decreases {s s' : Pool M A C.World} (h : C.Step s s') (hfetch : C.fetchErrorAborts = true)
    (halive : s'.aborted = false) : Prod.Lex (· < ·) (Relation.CutExpand Program.After)
      (s'.waiting, s'.running) (s.waiting, s.running) := by
  cases h with
  | take running free next taken =>
    refine .left _ _ ?_
    simp only [Pool.waiting, free, next, List.length_cons, Option.toList_some, Option.toList_none,
      List.length_nil]
    omega
  | takeAborts => cases halive
  | fetchError => exact absurd (hfetch.symm.trans halive) (by decide)
  | spawn running waiting permit =>
    refine .left _ _ ?_
    simp only [Pool.waiting, waiting, Option.toList_some, Option.toList_none, List.length_cons,
      List.length_nil]
    omega
  | @answer i m q next a w running pending answered =>
    refine .right _ ⟨{next a}, _, ?_, Pool.filterMap_set pending _⟩
    intro p' hp'
    obtain rfl := Multiset.mem_singleton.mp hp'
    exact ⟨q, next, a, rfl, rfl⟩
  | finish running returned =>
    exact .right _ ⟨0, _, by simp, Pool.filterMap_set returned none⟩
  | panic running pending unwinds =>
    exact .right _ ⟨0, _, by simp, Pool.filterMap_set pending none⟩
  | abort => cases halive

theorem terminates (hfetch : C.fetchErrorAborts = true) :
    WellFounded fun after before => C.Step before after := by
  have hlex : WellFounded (Prod.Lex (· < ·) (Relation.CutExpand Program.After) :
      ℕ × Multiset (Program A Unit) → ℕ × Multiset (Program A Unit) → Prop) :=
    WellFounded.prod_lex wellFounded_lt Program.wellFounded_after.cutExpand
  have hacc : ∀ size, ∀ s : Pool M A C.World, (s.waiting, s.running) = size →
      Acc (fun after before => C.Step before after) s := by
    intro size
    induction size using hlex.induction with
    | _ size ih =>
      rintro s rfl
      refine ⟨_, fun s' hstep => ?_⟩
      cases halive : s'.aborted with
      | true => exact ⟨_, fun s'' hnext => absurd hnext.alive (by simp [halive])⟩
      | false => exact ih _ (hstep.decreases hfetch halive) s' rfl
  exact ⟨fun s => hacc _ s rfl⟩

/-! ## Where a run ends -/

/-- Nothing can happen any more that leaves the process alive. -/
def Idle (C : Consumer M A) (s : Pool M A C.World) : Prop := ∀ s', C.Step s s' → s'.aborted = true

/-- An idle consumer has handled all messages. -/
theorem Open.done_of_idle (hC : C.Open) (hlimit : 0 < C.limit) {s : Pool M A C.World}
    (halive : s.aborted = false) (hidle : C.Idle s)
    (hanswer : ∀ (i : ℕ) m q next, s.tasks[i]? = some (m, some (.call q next)) → Nonempty (A q)) :
    s.stream = [] ∧ s.held = none ∧ ∀ (i : ℕ) m o, s.tasks[i]? = some (m, o) → o = none := by
  have hno (s' : Pool M A C.World) (hstep : C.Step s s') (hsame : s'.aborted = s.aborted) : False := by
    have haborted := hidle s' hstep
    rw [hsame, halive] at haborted
    cases haborted
  have htasks : ∀ (i : ℕ) m o, s.tasks[i]? = some (m, o) → o = none := by
    intro i m o hi
    cases o with
    | none => rfl
    | some p =>
      cases p with
      | ret u => exact (hno _ (.finish halive hi) rfl).elim
      | call q next =>
        obtain ⟨a⟩ := hanswer i m q next hi
        exact (hno _ (.answer halive hi (hC.answer m q s.world a)) rfl).elim
  have hlive : s.live = 0 := by
    refine List.countP_eq_zero.mpr fun task htask => ?_
    obtain ⟨i, hi⟩ := List.getElem?_of_mem htask
    simp [htasks i task.1 task.2 hi]
  have hheld : s.held = none := by
    cases hheld : s.held with
    | none => rfl
    | some m => exact (hno _ (.spawn halive hheld (by omega)) rfl).elim
  refine ⟨?_, hheld, htasks⟩
  cases hstream : s.stream with
  | nil => rfl
  | cons m rest => exact (hno _ (.take halive hheld hstream (hC.take m s.world)) rfl).elim

/-- Without a permit no task is ever spawned. -/
theorem tasks_of_no_permit (hlimit : C.limit = 0) {messages : List M} {w : C.World}
    {s : Pool M A C.World} (h : C.Reachable messages w s) : s.tasks = [] := by
  refine invariant (P := fun s => s.tasks = []) rfl (fun s s' _ hs hstep => ?_) h
  cases hstep with
  | spawn running waiting permit => omega
  | answer running pending answered => simp [hs] at pending
  | finish running returned => simp [hs] at returned
  | panic running pending unwinds => simp [hs] at pending
  | _ => exact hs

/-! ## One after the other -/

/-- The tasks of `served` have ended, and perhaps one more has been spawned. -/
def servedPool (served : List M) (task : Option (M × Option (Program A Unit))) (rest : List M)
    (log : List (ℕ × Event A)) (w : C.World) : Pool M A C.World :=
  { stream := rest, held := none, tasks := served.map (·, none) ++ task.toList, log := log,
    world := w, aborted := false }

theorem Open.spawn_next (hC : C.Open) (hlimit : 0 < C.limit) (served : List M) (m : M)
    (rest : List M) (log : List (ℕ × Event A)) (w : C.World) : Relation.ReflTransGen C.Step
      (servedPool served none (m :: rest) log w)
      (servedPool served (some (m, some (C.body m))) rest log w) := by
  have htake : C.Step (servedPool served none (m :: rest) log w)
      { servedPool served none (m :: rest) log w with stream := rest, held := some m } :=
    .take rfl rfl rfl (hC.take m w)
  have hlive : ({ servedPool served none (m :: rest) log w with
      stream := rest, held := some m } : Pool M A C.World).live = 0 := by
    refine List.countP_eq_zero.mpr fun task htask => ?_
    obtain ⟨m', -, rfl⟩ : ∃ m' ∈ served, (m', none) = task := by simpa [servedPool] using htask
    simp
  have hspawn := Step.spawn (C := C) (s := { servedPool served none (m :: rest) log w with
    stream := rest, held := some m }) rfl rfl (by omega)
  simp only [servedPool, Option.toList_none, List.append_nil] at htake hspawn ⊢
  exact .tail (.single htake) hspawn

theorem Open.serve (hC : C.Open) (hlimit : 0 < C.limit) {P : Event A → Prop} {w : C.World}
    {served : List M} (hreturns : ∀ m ∈ served, ∃ t, Returns (C.body m) t () ∧ ∀ e ∈ t, P e)
    (rest : List M) : ∃ log, (∀ e ∈ log, e.1 < served.length ∧ P e.2) ∧
      C.Reachable (served ++ rest) w (servedPool served none rest log w) := by
  induction served using List.reverseRecOn generalizing rest with
  | nil => exact ⟨[], List.forall_mem_nil _, .refl⟩
  | append_singleton served m ih =>
    rw [List.forall_mem_append, List.forall_mem_singleton] at hreturns
    obtain ⟨log, hlog, hserved⟩ := ih hreturns.1 (m :: rest)
    obtain ⟨t, ht, hP⟩ := hreturns.2
    have hnew : (servedPool served (some (m, some (C.body m))) rest log w).tasks[served.length]? =
        some (m, some (C.body m)) := by simp [servedPool]
    have hrun := hC.run_task ht rfl hnew
    have hfinish := Step.finish (C := C) (s := { servedPool served (some (m, some (C.body m))) rest log w with
        tasks := (servedPool served (some (m, some (C.body m))) rest log w).tasks.set served.length
          (m, some (.ret ())), log := log ++ t.map fun e => (served.length, e) }) rfl
      (List.getElem?_set_self (List.getElem?_eq_some_iff.mp hnew).1)
    refine ⟨log ++ t.map fun e => (served.length, e), ?_, ?_⟩
    · rw [List.forall_mem_append, List.length_append]
      refine ⟨fun e he => ⟨Nat.lt_add_right _ (hlog e he).1, (hlog e he).2⟩, fun e he => ?_⟩
      obtain ⟨event, hevent, rfl⟩ := List.mem_map.mp he
      exact ⟨Nat.lt_add_of_pos_right Nat.one_pos, hP event hevent⟩
    · have hall := ((hserved.trans (hC.spawn_next hlimit served m rest log w)).trans hrun).tail hfinish
      simpa [servedPool] using hall

/-- The first messages have been handled, and the next one has been spawned. -/
theorem Open.reach_next (hC : C.Open) (hlimit : 0 < C.limit) {P : Event A → Prop} {w : C.World}
    {served : List M} (hreturns : ∀ m ∈ served, ∃ t, Returns (C.body m) t () ∧ ∀ e ∈ t, P e)
    (m : M) (rest : List M) : ∃ s, C.Reachable (served ++ m :: rest) w s ∧
      (∀ e ∈ s.log, e.1 < served.length ∧ P e.2) ∧
      s.tasks[served.length]? = some (m, some (C.body m)) := by
  obtain ⟨log, hlog, hserved⟩ := hC.serve hlimit hreturns (m :: rest)
  exact ⟨_, hserved.trans (hC.spawn_next hlimit served m rest log w), hlog, by simp [servedPool]⟩

end Consumer

end Interaction
