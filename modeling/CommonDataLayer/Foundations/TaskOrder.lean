import Mathlib.Data.Finset.Card
import Mathlib.Data.Finset.Range
import CommonDataLayer.Foundations.TaskPool

/-! # When a consumer keeps the effects of a group in order

Messages carry a group (or none), and some of the calls count as effects. The effects of a group
are in order when no effect of a later message of the group comes before an effect of an earlier
one. Nothing in a `Consumer` makes one task wait for another one, so order can only come from
the lack of a permit: two messages of a group are never in flight together exactly when the tasks
before them that cannot end leave fewer than two permits (`inOrder_iff`).
-/
namespace Interaction
set_option autoImplicit false

variable {M Q K : Type} {A : Q → Type}

/-- A world without memory in which every call may get every answer. -/
def Host.free (M : Type) {Q : Type} (A : Q → Type) (unwinds fatal : Q → Prop) : Host M A where
  World := Unit
  take _ _ _ := True
  takeAborts _ _ := False
  answer _ _ _ _ _ := True
  panics _ q _ _ := unwinds q
  aborts _ q _ := fatal q

/-- No effect of a later message of a group comes before an effect of an earlier one. -/
def InOrder (group : M → Option K) (effect : Q → Prop) (messages : List M)
    (log : List (ℕ × Event A)) : Prop :=
  log.Pairwise fun x y => ∀ m n k, messages[y.1]? = some m → messages[x.1]? = some n →
    y.1 < x.1 → group m = some k → group n = some k → effect x.2.1 → ¬ effect y.2.1

namespace Consumer
variable {C : Consumer M A}

/-- Some run of the message's task has an effect. -/
def CanEffect (C : Consumer M A) (effect : Q → Prop) (m : M) : Prop :=
  ∃ t rest, Steps (C.body m) t rest ∧ ∃ e ∈ t, effect e.1

/-- Some run of the message's task gives its permit back. -/
def CanEnd (C : Consumer M A) (m : M) : Prop :=
  ∃ t rest, Steps (C.body m) t rest ∧ C.Ended m rest

open Classical in
/-- The messages before number `j`, number `i` aside, whose tasks never give their permit back. -/
noncomputable def stuck (C : Consumer M A) (messages : List M) (i j : ℕ) : ℕ :=
  ((Finset.range j).filter fun k => k ≠ i ∧ ∃ m, messages[k]? = some m ∧ ¬ C.CanEnd m).card

/-- Two messages of a group that both have effects find fewer than two permits. -/
def Serial (C : Consumer M A) (group : M → Option K) (effect : Q → Prop)
    (messages : List M) : Prop :=
  ∀ i j m n k, i < j → messages[i]? = some m → messages[j]? = some n → group m = some k →
    group n = some k → C.CanEffect effect m → C.CanEffect effect n →
    C.limit < C.stuck messages i j + 2

/-! ## Permits in use, counted by task number -/

theorem countP_eq_card {T : Type} (p : T → Bool) (tasks : List T) : tasks.countP p =
    ((Finset.range tasks.length).filter fun k => tasks[k]?.any p).card := by
  induction tasks using List.reverseRecOn with
  | nil => simp
  | append_singleton tasks t ih =>
    have hold : (Finset.range tasks.length).filter (fun k => (tasks ++ [t])[k]?.any p) =
        (Finset.range tasks.length).filter fun k => tasks[k]?.any p := by
      refine Finset.filter_congr fun k hk => ?_
      rw [List.getElem?_append_left (Finset.mem_range.mp hk)]
    rw [List.countP_append, ih, List.length_append, List.length_singleton, Finset.range_add_one,
      Finset.filter_insert, hold]
    cases ht : p t with
    | false => simp [ht]
    | true =>
      rw [if_pos (by simp [ht]), Finset.card_insert_of_notMem (by simp)]
      simp [ht]

/-- The stuck tasks before a message, counted along the stream. -/
theorem stuck_eq_countP {stuck : M → Bool} (hstuck : ∀ m, stuck m = true ↔ ¬ C.CanEnd m)
    {messages : List M} {i : ℕ} {m : M} (hi : messages[i]? = some m) (hend : C.CanEnd m) (j : ℕ) :
    C.stuck messages i j = (messages.take j).countP stuck := by
  classical
  rw [countP_eq_card, Consumer.stuck]
  congr 1
  ext k
  simp only [Finset.mem_filter, Finset.mem_range, List.length_take]
  constructor
  · rintro ⟨hk, _, n, hn, hnot⟩
    obtain ⟨hlt, _⟩ := List.getElem?_eq_some_iff.mp hn
    refine ⟨by omega, ?_⟩
    rw [List.getElem?_take_of_lt hk, hn]
    exact (hstuck n).mpr hnot
  · rintro ⟨hk, hany⟩
    obtain ⟨hlt, hlen⟩ : k < j ∧ k < messages.length := by omega
    rw [List.getElem?_take_of_lt hlt, List.getElem?_eq_getElem hlen] at hany
    refine ⟨hlt, ?_, _, List.getElem?_eq_getElem hlen, (hstuck _).mp hany⟩
    rintro rfl
    rw [List.getElem?_eq_getElem hlen] at hi
    cases hi
    exact (hstuck _).mp hany hend

/-- `Serial` in terms of the messages, once it is known which tasks have effects and which end. -/
theorem serial_iff {group : M → Option K} {effect : Q → Prop} {effective : M → Prop}
    {stuck : M → Bool} (heffect : ∀ m, C.CanEffect effect m ↔ effective m)
    (hstuck : ∀ m, stuck m = true ↔ ¬ C.CanEnd m) (hends : ∀ m, effective m → C.CanEnd m)
    (messages : List M) : C.Serial group effect messages ↔
      ∀ i j m n k, i < j → messages[i]? = some m → messages[j]? = some n → group m = some k →
        group n = some k → effective m → effective n →
        C.limit < (messages.take j).countP stuck + 2 := by
  unfold Consumer.Serial
  simp only [heffect]
  refine forall_congr' fun i => forall_congr' fun j => forall_congr' fun m => forall_congr' fun n =>
    forall_congr' fun k => forall_congr' fun hij => forall_congr' fun hm => forall_congr' fun hn =>
    forall_congr' fun hgm => forall_congr' fun hgn => forall_congr' fun hem => ?_
  rw [stuck_eq_countP hstuck hm (hends m hem)]

/-! ## Enough waiting keeps the order -/

theorem canEffect_of_log {messages : List M} {s : Pool M A C.World} (hs : C.Sound messages s)
    {effect : Q → Prop} {i : ℕ} {m : M} (hm : messages[i]? = some m) {e : Event A}
    (he : (i, e) ∈ s.log) (heff : effect e.1) : C.CanEffect effect m := by
  obtain ⟨t₁, _, next, _, ht⟩ := hs.before hm he
  exact ⟨t₁ ++ [e], next e.2, ht.trans (.call (.refl _)), e, by simp, heff⟩

/-- While a task is in flight, so is every task that cannot end. -/
theorem stuck_lt_live {messages : List M} {s : Pool M A C.World} (hs : C.Sound messages s)
    {i : ℕ} {m : M} {p : Program A Unit} (hi : s.tasks[i]? = some (m, some p)) :
    C.stuck messages i s.tasks.length < s.live := by
  classical
  rw [Pool.live, countP_eq_card]
  obtain ⟨hlt, _⟩ := List.getElem?_eq_some_iff.mp hi
  refine Finset.card_lt_card ((Finset.ssubset_iff_of_subset ?_).mpr
    ⟨i, Finset.mem_filter.mpr ⟨Finset.mem_range.mpr hlt, by rw [hi]; rfl⟩, by simp⟩)
  intro k hk
  simp only [Finset.mem_filter, Finset.mem_range] at hk ⊢
  obtain ⟨hklt, _, n, hn, hstuck⟩ := hk
  refine ⟨hklt, ?_⟩
  obtain ⟨⟨n', o⟩, ht⟩ : ∃ t, s.tasks[k]? = some t := ⟨_, List.getElem?_eq_getElem hklt⟩
  have hnn : n' = n := by
    have h := hs.message ht
    rw [hn] at h
    exact (Option.some.inj h).symm
  subst hnn
  rw [ht]
  cases o with
  | some p => rfl
  | none =>
    obtain ⟨rest, htr, _, hend⟩ := hs.trace k _ none ht
    exact absurd ⟨_, rest, htr, hend rfl⟩ hstuck

/-- A task of a group is spawned only after the earlier tasks of its group have ended. -/
def Waits (C : Consumer M A) (group : M → Option K) (effect : Q → Prop) (messages : List M)
    (s : Pool M A C.World) : Prop :=
  ∀ i j m n k, i < j → j < s.tasks.length → messages[i]? = some m → messages[j]? = some n →
    group m = some k → group n = some k → C.CanEffect effect m → C.CanEffect effect n →
    s.tasks[i]? = some (m, none)

theorem Waits.set {group : M → Option K} {effect : Q → Prop} {messages : List M}
    {s : Pool M A C.World} (hw : C.Waits group effect messages s) {l : ℕ} {m' : M}
    {p : Program A Unit} (hl : s.tasks[l]? = some (m', some p)) (o : Option (Program A Unit))
    (log : List (ℕ × Event A)) (w : C.World) : C.Waits group effect messages
      { s with tasks := s.tasks.set l (m', o), log := log, world := w } := by
  intro i j m n k hij hj hm hn hgm hgn hem hen
  simp only [List.length_set] at hj
  have h := hw i j m n k hij hj hm hn hgm hgn hem hen
  have hne : l ≠ i := by
    rintro rfl
    rw [hl] at h
    simp at h
  simpa only [List.getElem?_set_ne hne] using h

theorem Waits.step {group : M → Option K} {effect : Q → Prop} {messages : List M}
    (serial : C.Serial group effect messages) {s s' : Pool M A C.World}
    (hs : C.Sound messages s) (hw : C.Waits group effect messages s) (h : C.Step s s') :
    C.Waits group effect messages s' := by
  cases h with
  | take => exact hw
  | takeAborts => exact hw
  | fetchError => exact hw
  | @spawn m' running waiting permit =>
    intro i j m n k hij hj hm hn hgm hgn hem hen
    simp only [List.length_append, List.length_singleton] at hj
    rw [List.getElem?_append_left (by omega)]
    by_cases hnew : j < s.tasks.length
    · exact hw i j m n k hij hnew hm hn hgm hgn hem hen
    · have hj' : j = s.tasks.length := by omega
      subst hj'
      obtain ⟨⟨m₁, o⟩, hi⟩ : ∃ t, s.tasks[i]? = some t := ⟨_, List.getElem?_eq_getElem hij⟩
      have hmm : m₁ = m := by
        have h := hs.message hi
        rw [hm] at h
        exact (Option.some.inj h).symm
      subst hmm
      cases o with
      | none => exact hi
      | some p =>
        have h₁ := stuck_lt_live hs hi
        have h₂ := serial i s.tasks.length _ n k hij hm hn hgm hgn hem hen
        omega
  | answer running pending answered => exact hw.set pending _ _ _
  | finish running returned => exact hw.set returned none s.log s.world
  | panic running pending unwinds => exact hw.set pending none s.log _
  | abort => exact hw

theorem inOrder_step {group : M → Option K} {effect : Q → Prop} {messages : List M}
    {s s' : Pool M A C.World} (hs : C.Sound messages s) (hw : C.Waits group effect messages s)
    (ho : InOrder group effect messages s.log) (h : C.Step s s') :
    InOrder group effect messages s'.log := by
  cases h with
  | @answer i m q next a w running pending answered =>
    refine List.pairwise_append.mpr ⟨ho, List.pairwise_singleton _ _, ?_⟩
    intro x hx y hy m₁ n k hm hn hlt hgm hgn hex hey
    rw [List.mem_singleton.mp hy] at hm hlt hey
    have hmm : messages[i]? = some m := hs.message pending
    have hm₁ : m₁ = m := by
      rw [hmm] at hm
      exact (Option.some.inj hm).symm
    subst hm₁
    obtain ⟨rest, ht, hr, _⟩ := hs.trace i _ _ pending
    have hrest := hr _ rfl
    subst hrest
    have hem : C.CanEffect effect m₁ :=
      ⟨_, next a, ht.trans (.call (.refl _)), ⟨q, a⟩, by simp, hey⟩
    have hen : C.CanEffect effect n := canEffect_of_log hs hn (e := x.2) hx hex
    have hdone := hw i x.1 m₁ n k hlt (hs.bound x hx) hmm hn hgm hgn hem hen
    rw [hdone] at pending
    simp at pending
  | take => exact ho
  | takeAborts => exact ho
  | fetchError => exact ho
  | spawn => exact ho
  | finish => exact ho
  | panic => exact ho
  | abort => exact ho

theorem inOrder_of_serial {group : M → Option K} {effect : Q → Prop} {messages : List M}
    {w : C.World} (serial : C.Serial group effect messages) {s : Pool M A C.World}
    (h : C.Reachable messages w s) : InOrder group effect messages s.log := by
  have hinv : C.Waits group effect messages s ∧ InOrder group effect messages s.log := by
    refine invariant (P := fun s => C.Waits group effect messages s ∧
      InOrder group effect messages s.log) ⟨?_, ?_⟩ ?_ h
    · intro i j m n k _ hj
      simp [Pool.start] at hj
    · exact List.Pairwise.nil
    · rintro s s' hr ⟨hw, ho⟩ hstep
      exact ⟨hw.step serial (sound hr) hstep, inOrder_step (sound hr) hw ho hstep⟩
  exact hinv.2

/-! ## With two permits left the order breaks -/

/-- Every call may get every answer, and the world never matters. -/
structure Open (C : Consumer M A) : Prop where
  take : ∀ m w, C.take m w w
  answer : ∀ m q w a, C.answer m q w a w
  panics : ∀ m q w w', C.panics m q w w' → ∀ v, C.panics m q v v

theorem open_free (limit : ℕ) (body : M → Program A Unit) (fetchErrorAborts : Bool)
    (unwinds fatal : Q → Prop) :
    Open { Host.free M A unwinds fatal with limit, body, fetchErrorAborts } where
  take _ _ := trivial
  answer _ _ _ _ := trivial
  panics _ _ _ _ h _ := h

variable {messages : List M} {w : C.World}

/-- A task may be run alone along any trace of its body. -/
theorem Open.run_task (hC : C.Open) {p p' : Program A Unit} {t : List (Event A)}
    (ht : Steps p t p') {s : Pool M A C.World} {i : ℕ} {m : M} (running : s.aborted = false)
    (hi : s.tasks[i]? = some (m, some p)) : Relation.ReflTransGen C.Step s
      { s with tasks := s.tasks.set i (m, some p'), log := s.log ++ t.map fun e => (i, e) } :=
  Consumer.run_task ht running hi fun e _ => hC.answer m e.1 s.world e.2

/-- A task that can end may be run to its end alone. -/
theorem Open.end_task (hC : C.Open) {s : Pool M A C.World} {i : ℕ} {m : M}
    (running : s.aborted = false) (hi : s.tasks[i]? = some (m, some (C.body m)))
    (hend : C.CanEnd m) : ∃ log, Relation.ReflTransGen C.Step s
      { s with tasks := s.tasks.set i (m, none), log := log } := by
  obtain ⟨t, rest, ht, hrest⟩ := hend
  obtain ⟨hlt, _⟩ := List.getElem?_eq_some_iff.mp hi
  have hrun := hC.run_task ht running hi
  refine ⟨s.log ++ t.map fun e => (i, e), hrun.tail ?_⟩
  have hpending := List.getElem?_set_self (a := (m, some rest)) hlt
  rcases hrest with rfl | ⟨q, next, v, v', rfl, hp⟩
  · have h := Step.finish (C := C) (s := { s with tasks := s.tasks.set i (m, some (.ret ())),
                                                  log := s.log ++ t.map fun e => (i, e) })
      running hpending
    simpa only [List.set_set] using h
  · have h := Step.panic (C := C) (s := { s with tasks := s.tasks.set i (m, some (.call q next)),
                                                 log := s.log ++ t.map fun e => (i, e) })
      running hpending (hC.panics m q v v' hp s.world)
    simpa only [List.set_set] using h

/-- The first `k` tasks have been spawned. Task `i` and those that cannot end have not begun, the
others have ended. -/
structure Prepared (C : Consumer M A) (messages : List M) (w : C.World) (i k : ℕ)
    (s : Pool M A C.World) : Prop where
  reach : C.Reachable messages w s
  running : s.aborted = false
  free : s.held = none
  stream : s.stream = messages.drop k
  count : s.tasks.length = k
  tasks : ∀ l m o, s.tasks[l]? = some (m, o) →
    (o = some (C.body m) ∧ (l = i ∨ ¬ C.CanEnd m)) ∨ (l ≠ i ∧ o = none)

theorem Prepared.live_le {i k : ℕ} {s : Pool M A C.World} (hs : C.Prepared messages w i k s) :
    s.live ≤ C.stuck messages i k + 1 := by
  classical
  rw [Pool.live, countP_eq_card, hs.count]
  refine (Finset.card_le_card (t := insert i _) ?_).trans (Finset.card_insert_le i
    ((Finset.range k).filter fun l => l ≠ i ∧ ∃ m, messages[l]? = some m ∧ ¬ C.CanEnd m))
  intro l hl
  simp only [Finset.mem_filter, Finset.mem_range, Finset.mem_insert] at hl ⊢
  obtain ⟨hlt, hsome⟩ := hl
  by_cases hli : l = i
  · exact .inl hli
  · obtain ⟨⟨m, o⟩, ht⟩ : ∃ t, s.tasks[l]? = some t :=
      ⟨_, List.getElem?_eq_getElem (by rw [hs.count]; exact hlt)⟩
    rcases hs.tasks l m o ht with ⟨_, h⟩ | ⟨_, rfl⟩
    · exact .inr ⟨hlt, hli, m, (sound hs.reach).message ht, h.resolve_left hli⟩
    · rw [ht] at hsome
      cases hsome

theorem stuck_mono (i : ℕ) {k j : ℕ} (hkj : k ≤ j) :
    C.stuck messages i k ≤ C.stuck messages i j := by
  classical
  refine Finset.card_le_card fun l hl => ?_
  simp only [Finset.mem_filter, Finset.mem_range] at hl ⊢
  exact ⟨by omega, hl.2⟩

/-- With a permit left the next message is spawned. -/
theorem Prepared.spawn (hC : C.Open) {i k : ℕ} {m : M} {s : Pool M A C.World}
    (hs : C.Prepared messages w i k s) (hm : messages[k]? = some m)
    (permit : s.live < C.limit) : C.Reachable messages w
      { s with stream := messages.drop (k + 1), held := none,
               tasks := s.tasks ++ [(m, some (C.body m))] } := by
  have hnext : s.stream = m :: messages.drop (k + 1) := by
    obtain ⟨hlt, he⟩ := List.getElem?_eq_some_iff.mp hm
    rw [hs.stream, List.drop_eq_getElem_cons hlt, he]
  have htake := Step.take hs.running hs.free hnext (hC.take m s.world)
  exact (hs.reach.tail htake).tail (.spawn hs.running rfl permit)

theorem Open.prepare (hC : C.Open) {i j : ℕ} (hj : j ≤ messages.length)
    (permits : C.stuck messages i j + 2 ≤ C.limit) :
    ∀ k ≤ j, ∃ s, C.Prepared messages w i k s
  | 0, _ => ⟨Pool.start messages w, .refl, rfl, rfl, rfl, rfl, by simp [Pool.start]⟩
  | k + 1, hk => by
    obtain ⟨s, hs⟩ := Open.prepare hC hj permits k (by omega)
    have hlive := hs.live_le.trans (Nat.add_le_add_right (stuck_mono i (by omega : k ≤ j)) 1)
    obtain ⟨m, hm⟩ : ∃ m, messages[k]? = some m :=
      ⟨_, List.getElem?_eq_getElem (by omega : k < messages.length)⟩
    have hreach := hs.spawn hC hm (by omega)
    have hnew : (s.tasks ++ [(m, some (C.body m))])[k]? = some (m, some (C.body m)) := by
      rw [← hs.count, List.getElem?_concat_length]
    have hold : ∀ l m' o, l ≠ k → (s.tasks ++ [(m, some (C.body m))])[l]? = some (m', o) →
        s.tasks[l]? = some (m', o) := by
      intro l m' o hlk hl
      obtain ⟨hlt, _⟩ := List.getElem?_eq_some_iff.mp hl
      simp only [List.length_append, List.length_singleton, hs.count] at hlt
      rwa [List.getElem?_append_left (by rw [hs.count]; omega)] at hl
    by_cases hkeep : k = i ∨ ¬ C.CanEnd m
    · refine ⟨_, hreach, hs.running, rfl, rfl, by simp [hs.count], ?_⟩
      intro l m' o hl
      by_cases hlk : l = k
      · subst hlk
        rw [hnew] at hl
        simp only [Option.some.injEq, Prod.mk.injEq] at hl
        obtain ⟨rfl, rfl⟩ := hl
        exact .inl ⟨rfl, hkeep⟩
      · exact hs.tasks l m' o (hold l m' o hlk hl)
    · obtain ⟨hki, hend⟩ := not_or.mp hkeep
      let spawned : Pool M A C.World :=
        { s with stream := messages.drop (k + 1), held := none,
                 tasks := s.tasks ++ [(m, some (C.body m))] }
      have hcount : spawned.tasks.length = k + 1 := by simp [spawned, hs.count]
      obtain ⟨log, hrun⟩ := hC.end_task (s := spawned) (i := k) hs.running hnew (not_not.mp hend)
      refine ⟨_, hreach.trans hrun, hs.running, rfl, rfl, by simp [hcount], ?_⟩
      intro l m' o hl
      by_cases hlk : l = k
      · subst hlk
        rw [List.getElem?_set_self (by omega)] at hl
        simp only [Option.some.injEq, Prod.mk.injEq] at hl
        exact .inr ⟨hki, hl.2.symm⟩
      · rw [List.getElem?_set_ne (Ne.symm hlk)] at hl
        exact hs.tasks l m' o (hold l m' o hlk hl)

theorem Open.exists_not_inOrder (hC : C.Open) {group : M → Option K} {effect : Q → Prop}
    {i j : ℕ} {m n : M} {k : K} (hij : i < j) (hm : messages[i]? = some m)
    (hn : messages[j]? = some n) (hgm : group m = some k) (hgn : group n = some k)
    (hem : C.CanEffect effect m) (hen : C.CanEffect effect n)
    (permits : C.stuck messages i j + 2 ≤ C.limit) :
    ∃ s, C.Reachable messages w s ∧ ¬ InOrder group effect messages s.log := by
  obtain ⟨hj, _⟩ := List.getElem?_eq_some_iff.mp hn
  obtain ⟨s, hs⟩ := hC.prepare (w := w) hj.le permits j le_rfl
  have hspawn := hs.spawn hC hn (by have := hs.live_le; omega)
  obtain ⟨tn, pn, htn, en, hen, heffn⟩ := hen
  obtain ⟨tm, pm, htm, em, hem, heffm⟩ := hem
  have hi : s.tasks[i]? = some (m, some (C.body m)) := by
    obtain ⟨⟨m', o⟩, ht⟩ : ∃ t, s.tasks[i]? = some t :=
      ⟨_, List.getElem?_eq_getElem (by rw [hs.count]; exact hij)⟩
    have hmm := (sound hs.reach).message ht
    rw [hm] at hmm
    obtain rfl := Option.some.inj hmm
    rcases hs.tasks i _ o ht with ⟨rfl, _⟩ | ⟨h, _⟩
    · exact ht
    · exact absurd rfl h
  have hnew : (s.tasks ++ [(n, some (C.body n))])[j]? = some (n, some (C.body n)) := by
    rw [← hs.count, List.getElem?_concat_length]
  -- the task of the later message runs first, then that of the earlier one
  let spawned : Pool M A C.World :=
    { s with stream := messages.drop (j + 1), held := none,
             tasks := s.tasks ++ [(n, some (C.body n))] }
  let later : Pool M A C.World :=
    { spawned with tasks := spawned.tasks.set j (n, some pn),
                   log := s.log ++ tn.map fun e => (j, e) }
  have hearlier : later.tasks[i]? = some (m, some (C.body m)) := by
    show (spawned.tasks.set j (n, some pn))[i]? = _
    rw [List.getElem?_set_ne (by omega), List.getElem?_append_left (by rw [hs.count]; exact hij), hi]
  have hrun₁ := hC.run_task htn (s := spawned) (i := j) hs.running hnew
  have hrun₂ := hC.run_task htm (s := later) (i := i) hs.running hearlier
  refine ⟨_, (hspawn.trans hrun₁).trans hrun₂, ?_⟩
  intro ho
  have hpair := (List.pairwise_append.mp ho).2.2 (j, en)
    (List.mem_append_right _ (List.mem_map.mpr ⟨en, hen, rfl⟩)) (i, em)
    (List.mem_map.mpr ⟨em, hem, rfl⟩)
  exact hpair m n k hm hn hij hgm hgn heffn heffm

/-- **When a consumer keeps the effects of every group in order.** -/
theorem Open.inOrder_iff (hC : C.Open) (group : M → Option K) (effect : Q → Prop) :
    (∀ s, C.Reachable messages w s → InOrder group effect messages s.log) ↔
      C.Serial group effect messages := by
  constructor
  · intro h i j m n k hij hm hn hgm hgn hem hen
    by_contra hpermits
    obtain ⟨s, hreach, hbad⟩ := hC.exists_not_inOrder (w := w) hij hm hn hgm hgn hem hen
      (by omega)
    exact hbad (h s hreach)
  · intro h s hreach
    exact inOrder_of_serial h hreach

end Consumer
end Interaction
