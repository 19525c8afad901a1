import Mathlib.Data.List.Basic
import Mathlib.Data.List.Induction

/-! # Runs of a transition system

A run is the list of its transitions, each with the states before and after it.

* `Run.of_steps`: the run of a system whose steps are computed. `Run.of_steps_if`: one in which every
  step meets a condition.
* `Run.drop`: the run from any of its states on.
* `Run.step_of_mem`: each transition of a run is a step. `Run.split`: the run up to it.
* `Run.observe`: an observation of the states that every step changes in a certain way.
* `Run.simulates`: a simulation, step by step, is one of whole runs.
* `Run.invariant`, `Run.invariant_states`: what the transitions that meet a condition preserve holds
  before and after each of them, and in all states.
* `Run.transitions_iff`, `Run.states_iff`: a property of all transitions, or of all states, that
  holds exactly as long as every transition meets its condition.
-/
namespace TransitionSystem
set_option autoImplicit false

variable {S L : Type}

structure Transition (S L : Type) where
  before : S
  label : L
  after : S

inductive Run (Step : S → L → S → Prop) (s₀ : S) : List (Transition S L) → S → Prop where
  | start : Run Step s₀ [] s₀
  | step {ts : List (Transition S L)} {s s' : S} {l : L} (earlier : Run Step s₀ ts s)
      (next : Step s l s') : Run Step s₀ (ts ++ [⟨s, l, s'⟩]) s'

/-- The states of a run. -/
def states (s₀ : S) (ts : List (Transition S L)) : List S := s₀ :: ts.map (·.after)

variable {Step : S → L → S → Prop} {s₀ s : S} {ts : List (Transition S L)} {Good : S → Prop}
  {Ok : S → L → Prop}

theorem Run.last_mem_states (hrun : Run Step s₀ ts s) : s ∈ states s₀ ts := by
  cases hrun with
  | start => exact List.mem_cons_self
  | step _ _ => simp [states]

theorem forall_label {labels : List L} {P : L → Prop} (hlabels : ts.map (·.label) = labels)
    (h : ∀ l ∈ labels, P l) : ∀ t ∈ ts, P t.label := by
  subst hlabels
  exact fun t ht => h t.label (List.mem_map_of_mem ht)

theorem Run.mono {Step' : S → L → S → Prop} (hrun : Run Step s₀ ts s)
    (hstep : ∀ s l s', Step s l s' → Step' s l s') : Run Step' s₀ ts s := by
  induction hrun with
  | start => exact .start
  | step _ next ih => exact ih.step (hstep _ _ _ next)

/-- A system whose steps are computed, run on a list of labels. -/
theorem Run.of_steps {step : S → L → Option S} {labels : List L} {s : S}
    (h : labels.foldlM step s₀ = some s) :
    ∃ ts, Run (fun s l s' => step s l = some s') s₀ ts s ∧ ts.map (·.label) = labels := by
  induction labels using List.reverseRecOn generalizing s with
  | nil =>
    cases h
    exact ⟨[], .start, rfl⟩
  | append_singleton labels l ih =>
    rw [List.foldlM_append] at h
    obtain ⟨mid, hmid, hlast⟩ := Option.bind_eq_some_iff.mp h
    obtain ⟨ts, hts, rfl⟩ := ih hmid
    have hlast : step mid l = some s := by simpa using hlast
    exact ⟨_, hts.step hlast, by rw [List.map_append, List.map_singleton]⟩

theorem Run.of_foldl {step : S → L → S} (labels : List L) :
    ∃ ts, Run (fun s l s' => s' = step s l) s₀ ts (labels.foldl step s₀) ∧ ts.map (·.label) = labels := by
  induction labels using List.reverseRecOn with
  | nil => exact ⟨[], .start, rfl⟩
  | append_singleton labels l ih =>
    obtain ⟨ts, hts, rfl⟩ := ih
    rw [List.foldl_append]
    exact ⟨_, hts.step rfl, by rw [List.map_append, List.map_singleton]⟩

theorem Run.of_steps_if {step : S → L → Option S} {labels : List L} {s : S}
    [∀ s l, Decidable (Ok s l)]
    (h : labels.foldlM (fun s l => if Ok s l then step s l else none) s₀ = some s) :
    ∃ ts, Run (fun s l s' => step s l = some s') s₀ ts s ∧ ts.map (·.label) = labels ∧
      ∀ t ∈ ts, Ok t.before t.label := by
  induction labels using List.reverseRecOn generalizing s with
  | nil =>
    cases h
    exact ⟨[], .start, rfl, List.forall_mem_nil _⟩
  | append_singleton labels l ih =>
    rw [List.foldlM_append] at h
    obtain ⟨mid, hmid, hlast⟩ := Option.bind_eq_some_iff.mp h
    obtain ⟨ts, hts, rfl, hok⟩ := ih hmid
    have hlast : (if Ok mid l then step mid l else none) = some s := by simpa using hlast
    obtain ⟨hl, hlast⟩ : Ok mid l ∧ step mid l = some s := by simpa using hlast
    refine ⟨_, hts.step hlast, by rw [List.map_append, List.map_singleton], ?_⟩
    exact List.forall_mem_append.mpr ⟨hok, List.forall_mem_singleton.mpr hl⟩

/-- The condition does not change where the steps lead. -/
theorem foldlM_of_if {step : S → L → Option S} {labels : List L} [∀ s l, Decidable (Ok s l)]
    (h : labels.foldlM (fun s l => if Ok s l then step s l else none) s₀ = some s) :
    labels.foldlM step s₀ = some s := by
  induction labels generalizing s₀ with
  | nil => exact h
  | cons l labels ih =>
    rw [List.foldlM_cons] at h ⊢
    obtain ⟨mid, hmid, hrest⟩ := Option.bind_eq_some_iff.mp h
    rw [(Option.ite_none_right_eq_some.mp hmid).2]
    exact ih hrest

/-- The rest of a run, from the state in which it starts. -/
theorem Run.drop (hrun : Run Step s₀ ts s) (k : ℕ) : ∃ mid, Run Step mid (ts.drop k) s := by
  induction hrun with
  | start => exact ⟨s₀, by rw [List.drop_nil]; exact .start⟩
  | @step ts s s' l earlier next ih =>
    by_cases hk : k ≤ ts.length
    · obtain ⟨mid, hmid⟩ := ih
      refine ⟨mid, ?_⟩
      rw [List.drop_append_of_le_length hk]
      exact hmid.step next
    · refine ⟨s', ?_⟩
      rw [List.drop_eq_nil_of_le (by rw [List.length_append, List.length_singleton]; omega)]
      exact .start

/-- What the steps make of an observation, the run makes of it. -/
theorem Run.observe {R : Type} {observe : S → R} {step : R → L → R}
    (hstep : ∀ s l s', Step s l s' → observe s' = step (observe s) l) (hrun : Run Step s₀ ts s) :
    observe s = (ts.map (·.label)).foldl step (observe s₀) := by
  induction hrun with
  | start => rfl
  | step _ next ih => rw [List.map_append, List.foldl_append, ← ih, hstep _ _ _ next]; rfl

theorem Run.step_of_mem (hrun : Run Step s₀ ts s) {t : Transition S L} (ht : t ∈ ts) :
    Step t.before t.label t.after := by
  induction hrun with
  | start => cases ht
  | step _ next ih =>
    rcases List.mem_append.mp ht with ht | ht
    · exact ih ht
    · rw [List.mem_singleton.mp ht]
      exact next

/-- The run up to one of its transitions. -/
theorem Run.split {earlier later : List (Transition S L)} {t : Transition S L} (hrun : Run Step s₀ ts s)
    (h : ts = earlier ++ t :: later) : Run Step s₀ earlier t.before ∧ Step t.before t.label t.after := by
  induction hrun generalizing later with
  | start => simp at h
  | step hearlier next ih =>
    rcases List.eq_nil_or_concat' later with rfl | ⟨middle, last, rfl⟩
    · obtain ⟨rfl, ht⟩ := List.append_inj' h rfl
      obtain rfl := List.singleton_inj.mp ht
      exact ⟨hearlier, next⟩
    · rw [← List.cons_append, ← List.append_assoc] at h
      exact ih (List.append_inj' h rfl).1

theorem Run.invariant (hstart : Good s₀)
    (hstep : ∀ s l s', Good s → Step s l s' → Ok s l → Good s') (hrun : Run Step s₀ ts s)
    (hok : ∀ t ∈ ts, Ok t.before t.label) : Good s ∧ ∀ t ∈ ts, Good t.before ∧ Good t.after := by
  induction hrun with
  | start => exact ⟨hstart, List.forall_mem_nil _⟩
  | step _ next ih =>
    rw [List.forall_mem_append, List.forall_mem_singleton] at hok
    obtain ⟨hgood, hearlier⟩ := ih hok.1
    have hnext := hstep _ _ _ hgood next hok.2
    rw [List.forall_mem_append, List.forall_mem_singleton]
    exact ⟨hnext, hearlier, hgood, hnext⟩

theorem Run.invariant_states (hstart : Good s₀)
    (hstep : ∀ s l s', Good s → Step s l s' → Ok s l → Good s') (hrun : Run Step s₀ ts s)
    (hok : ∀ t ∈ ts, Ok t.before t.label) : ∀ s ∈ states s₀ ts, Good s := by
  obtain ⟨-, hgood⟩ := hrun.invariant hstart hstep hok
  rw [states, List.forall_mem_cons, List.forall_mem_map]
  exact ⟨hstart, fun t ht => (hgood t ht).2⟩

/-- A simulation of the steps gives for each run one of the specification, with the same labels. -/
theorem Run.simulates {A : Type} {Spec : A → L → A → Prop} {Simulates : S → A → Prop} {a₀ : A}
    (hstart : Simulates s₀ a₀)
    (hstep : ∀ s a l s', Simulates s a → Step s l s' → Ok s l → ∃ a', Spec a l a' ∧ Simulates s' a')
    (hrun : Run Step s₀ ts s) (hok : ∀ t ∈ ts, Ok t.before t.label) :
    ∃ us a, Run Spec a₀ us a ∧ us.map (·.label) = ts.map (·.label) ∧ Simulates s a := by
  induction hrun with
  | start => exact ⟨[], a₀, .start, rfl, hstart⟩
  | step _ next ih =>
    rw [List.forall_mem_append, List.forall_mem_singleton] at hok
    obtain ⟨us, a, hus, hlabels, hsimulates⟩ := ih hok.1
    obtain ⟨a', hspec, hnext⟩ := hstep _ a _ _ hsimulates next hok.2
    refine ⟨_, a', hus.step hspec, ?_, hnext⟩
    rw [List.map_append, List.map_append, hlabels]
    rfl

theorem Run.transitions_iff {Q : Transition S L → Prop} (hstart : Good s₀)
    (hstep : ∀ s l s', Good s → Step s l s' → Ok s l → Good s')
    (hok : ∀ s l s', Good s → Step s l s' → Ok s l → Q ⟨s, l, s'⟩)
    (hbad : ∀ s l s', Good s → Step s l s' → ¬ Ok s l → ¬ Q ⟨s, l, s'⟩)
    (hrun : Run Step s₀ ts s) : (∀ t ∈ ts, Q t) ↔ ∀ t ∈ ts, Ok t.before t.label := by
  induction hrun with
  | start => exact iff_of_true (List.forall_mem_nil _) (List.forall_mem_nil _)
  | step earlier next ih =>
    simp only [List.forall_mem_append, List.forall_mem_singleton]
    rw [ih]
    refine and_congr_right fun hearlier => ?_
    have hgood := (earlier.invariant hstart hstep hearlier).1
    exact ⟨fun hq => by_contra fun hnot => hbad _ _ _ hgood next hnot hq, hok _ _ _ hgood next⟩

theorem Run.states_iff {P : S → Prop} (hstart : Good s₀) (hgood : ∀ s, Good s → P s)
    (hstep : ∀ s l s', Good s → Step s l s' → Ok s l → Good s')
    (hbad : ∀ s l s', Good s → Step s l s' → ¬ Ok s l → ¬ P s') (hrun : Run Step s₀ ts s) :
    (∀ s ∈ states s₀ ts, P s) ↔ ∀ t ∈ ts, Ok t.before t.label := by
  have hafter := Run.transitions_iff (Q := fun t => P t.after) hstart hstep
    (fun s l s' h next ok => hgood s' (hstep s l s' h next ok)) hbad hrun
  rw [← hafter, states, List.forall_mem_cons, List.forall_mem_map]
  exact and_iff_right (hgood s₀ hstart)

end TransitionSystem
