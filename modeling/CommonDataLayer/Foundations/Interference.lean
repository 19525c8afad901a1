import Mathlib.Logic.Relation
import CommonDataLayer.Foundations.Program

/-! # Programs that run while others change the state

Every call of the program is one step on a state, and between two calls others take steps of their
own. Nothing here fixes the calls or the steps.

* `Interleaved Step Answers p s a s'`: from `s` the program `p` comes to the value `a`, and leaves the
  state `s'`, with steps of others before, between and after its calls.
* `Interleaved.head`, `Interleaved.tail`: others may take steps before a run and after it.
* `interleaved_bind`, `interleaved_perform`, `interleaved_exceptT_bind`: a run taken apart.
* `Recorded`: such a run with the moments of its calls.
* `Observed`: a program that returns what holds at one moment of its run, or fails where calls can fail.
  `Observed.split`, `Observed.bind`: a composition whose first part is one.
* `Session.moments`: questions asked one after the other are answered at moments in this order.
-/
namespace Interaction
open Relation
set_option autoImplicit false

section Interference
variable {Q σ : Type} {A : Q → Type} {α β ε : Type}

inductive Interleaved (Step : σ → σ → Prop) (Answers : (q : Q) → σ → A q → σ → Prop) :
    Program A α → σ → α → σ → Prop where
  | ret {a : α} {s : σ} : Interleaved Step Answers (.ret a) s a s
  | call {q : Q} {next : A q → Program A α} {s mid s' : σ} {answer : A q} {a : α}
      (answers : Answers q s answer mid) (rest : Interleaved Step Answers (next answer) mid a s') :
      Interleaved Step Answers (.call q next) s a s'
  | other {p : Program A α} {s mid s' : σ} {a : α} (step : Step s mid)
      (rest : Interleaved Step Answers p mid a s') : Interleaved Step Answers p s a s'

variable {Step : σ → σ → Prop} {Answers : (q : Q) → σ → A q → σ → Prop} {s s' : σ}

theorem interleaved_ret {a b : α} (h : Interleaved Step Answers (.ret a) s b s') :
    b = a ∧ ReflTransGen Step s s' := by
  generalize hp : Program.ret a = p at h
  induction h with
  | ret =>
    cases hp
    exact ⟨rfl, .refl⟩
  | call => cases hp
  | other step _ ih =>
    obtain ⟨heq, hreaches⟩ := ih hp
    exact ⟨heq, .head step hreaches⟩

theorem interleaved_call {q : Q} {next : A q → Program A α} {b : α}
    (h : Interleaved Step Answers (.call q next) s b s') : ∃ before answer after,
      ReflTransGen Step s before ∧ Answers q before answer after ∧
        Interleaved Step Answers (next answer) after b s' := by
  generalize hp : Program.call q next = p at h
  induction h with
  | ret => cases hp
  | call answers rest =>
    cases hp
    exact ⟨_, _, _, .refl, answers, rest⟩
  | other step _ ih =>
    obtain ⟨before, answer, after, hreaches, hanswers, hrest⟩ := ih hp
    exact ⟨before, answer, after, .head step hreaches, hanswers, hrest⟩

theorem Interleaved.head {p : Program A α} {mid : σ} {a : α} (hsteps : ReflTransGen Step s mid)
    (h : Interleaved Step Answers p mid a s') : Interleaved Step Answers p s a s' := by
  induction hsteps using ReflTransGen.head_induction_on with
  | refl => exact h
  | head step _ ih => exact .other step ih

theorem Interleaved.tail {p : Program A α} {mid : σ} {a : α} (h : Interleaved Step Answers p s a mid)
    (hsteps : ReflTransGen Step mid s') : Interleaved Step Answers p s a s' := by
  induction h with
  | ret => exact .head hsteps .ret
  | call answers _ ih => exact .call answers (ih hsteps)
  | other step _ ih => exact .other step (ih hsteps)

theorem interleaved_bind {p : Program A α} {f : α → Program A β} {b : β}
    (h : Interleaved Step Answers (p.bind f) s b s') : ∃ a mid,
      Interleaved Step Answers p s a mid ∧ Interleaved Step Answers (f a) mid b s' := by
  induction p generalizing s with
  | ret a => exact ⟨a, s, .ret, h⟩
  | call q next ih =>
    obtain ⟨before, answer, after, hreaches, hanswers, hrest⟩ := interleaved_call h
    obtain ⟨a, mid, hfirst, hsecond⟩ := ih answer hrest
    exact ⟨a, mid, .head hreaches (.call hanswers hfirst), hsecond⟩

theorem interleaved_perform {q : Q} {answer : A q}
    (h : Interleaved Step Answers (Program.perform q) s answer s') : ∃ before after,
      ReflTransGen Step s before ∧ Answers q before answer after ∧ ReflTransGen Step after s' := by
  obtain ⟨before, answer', after, hreaches, hanswers, hrest⟩ := interleaved_call h
  obtain ⟨rfl, hlater⟩ := interleaved_ret hrest
  exact ⟨before, after, hreaches, hanswers, hlater⟩

theorem interleaved_exceptT_bind {x : ExceptT ε (Program A) α} {f : α → ExceptT ε (Program A) β}
    {r : Except ε β} (h : Interleaved Step Answers (x >>= f).run s r s') :
    (∃ e, r = .error e ∧ Interleaved Step Answers x.run s (.error e) s') ∨
      ∃ a mid, Interleaved Step Answers x.run s (.ok a) mid ∧
        Interleaved Step Answers (f a).run mid r s' := by
  have hbind : Interleaved Step Answers (x.run.bind (ExceptT.bindCont f)) s r s' := h
  obtain ⟨first, mid, hfirst, hrest⟩ := interleaved_bind hbind
  cases first with
  | ok a => exact .inr ⟨a, mid, hfirst, hrest⟩
  | error e =>
    obtain ⟨hr, hlater⟩ := interleaved_ret hrest
    exact .inl ⟨e, hr, hfirst.tail hlater⟩

theorem Interleaved.reaches {p : Program A α} {a : α}
    (hanswers : ∀ q s answer s', Answers q s answer s' → ReflTransGen Step s s')
    (h : Interleaved Step Answers p s a s') : ReflTransGen Step s s' := by
  induction h with
  | ret => exact .refl
  | call answers _ ih => exact (hanswers _ _ _ _ answers).trans ih
  | other step _ ih => exact .head step ih

/-- One call, and something that is computed from its answer. -/
theorem interleaved_perform_ret {q : Q} {f : A q → β} {b : β}
    (h : Interleaved Step Answers ((Program.perform q).bind fun answer => .ret (f answer)) s b s') :
    ∃ before answer after, ReflTransGen Step s before ∧ Answers q before answer after ∧
      ReflTransGen Step after s' ∧ b = f answer := by
  obtain ⟨before, answer, after, hreaches, hanswers, hrest⟩ := interleaved_call h
  obtain ⟨hb, hlater⟩ := interleaved_ret hrest
  exact ⟨before, answer, after, hreaches, hanswers, hlater, hb⟩

/-! ## The moments of the calls -/

/-- A call, the state in which it was answered, and the answer. -/
structure Moment (σ : Type) (A : Q → Type) where
  call : Q
  state : σ
  answer : A call

/-- A run that is interleaved with steps of others, with the moments of its own calls. -/
inductive Recorded (Step : σ → σ → Prop) (Answers : (q : Q) → σ → A q → σ → Prop) :
    Program A α → σ → List (Moment σ A) → α → σ → Prop where
  | ret {a : α} {s : σ} : Recorded Step Answers (.ret a) s [] a s
  | call {q : Q} {next : A q → Program A α} {s mid s' : σ} {moments : List (Moment σ A)} {answer : A q}
      {a : α} (answers : Answers q s answer mid) (rest : Recorded Step Answers (next answer) mid moments a s') :
      Recorded Step Answers (.call q next) s (⟨q, s, answer⟩ :: moments) a s'
  | other {p : Program A α} {s mid s' : σ} {moments : List (Moment σ A)} {a : α} (step : Step s mid)
      (rest : Recorded Step Answers p mid moments a s') : Recorded Step Answers p s moments a s'

variable {moments : List (Moment σ A)}

theorem Recorded.interleaved {p : Program A α} {a : α} (h : Recorded Step Answers p s moments a s') :
    Interleaved Step Answers p s a s' := by
  induction h with
  | ret => exact .ret
  | call answers _ ih => exact .call answers ih
  | other step _ ih => exact .other step ih

theorem recorded_call {q : Q} {next : A q → Program A α} {b : α}
    (h : Recorded Step Answers (.call q next) s moments b s') : ∃ before answer after later,
      moments = ⟨q, before, answer⟩ :: later ∧ ReflTransGen Step s before ∧ Answers q before answer after ∧
        Recorded Step Answers (next answer) after later b s' := by
  generalize hp : Program.call q next = p at h
  induction h with
  | ret => cases hp
  | call answers rest =>
    cases hp
    exact ⟨_, _, _, _, rfl, .refl, answers, rest⟩
  | other step _ ih =>
    obtain ⟨before, answer, after, later, hmoments, hreaches, hanswers, hrest⟩ := ih hp
    exact ⟨before, answer, after, later, hmoments, .head step hreaches, hanswers, hrest⟩

end Interference

/-! ## What holds at one moment -/

section Observed
variable {Q σ : Type} {A : Q → Type} {α β ε ε' : Type} {Step : σ → σ → Prop}
  {Answers : (q : Q) → σ → A q → σ → Prop} {s mid s' : σ} {P : σ → α → Prop} {failing : Prop}

/-- A value that is right at some moment between two states, or a failure. -/
def Observed (Step : σ → σ → Prop) (failing : Prop) (P : σ → α → Prop) (s : σ) (r : Except ε α) (s' : σ) :
    Prop :=
  (∃ a mid, r = .ok a ∧ ReflTransGen Step s mid ∧ P mid a ∧ ReflTransGen Step mid s') ∨
    (failing ∧ (∃ e, r = .error e) ∧ ReflTransGen Step s s')

theorem Observed.reaches {r : Except ε α} (h : Observed Step failing P s r s') : ReflTransGen Step s s' := by
  obtain ⟨a, mid, -, hbefore, -, hafter⟩ | ⟨-, -, hreaches⟩ := h
  · exact hbefore.trans hafter
  · exact hreaches

theorem Observed.head {r : Except ε α} (hsteps : ReflTransGen Step s mid)
    (h : Observed Step failing P mid r s') : Observed Step failing P s r s' := by
  obtain ⟨a, m, hr, hbefore, hP, hafter⟩ | ⟨hfailing, he, hreaches⟩ := h
  · exact .inl ⟨a, m, hr, hsteps.trans hbefore, hP, hafter⟩
  · exact .inr ⟨hfailing, he, hsteps.trans hreaches⟩

theorem Observed.tail {r : Except ε α} (h : Observed Step failing P s r mid)
    (hsteps : ReflTransGen Step mid s') : Observed Step failing P s r s' := by
  obtain ⟨a, m, hr, hbefore, hP, hafter⟩ | ⟨hfailing, he, hreaches⟩ := h
  · exact .inl ⟨a, m, hr, hbefore, hP, hafter.trans hsteps⟩
  · exact .inr ⟨hfailing, he, hreaches.trans hsteps⟩

theorem Observed.mono {r : Except ε α} {R : σ → α → Prop} (h : Observed Step failing P s r s')
    (hR : ∀ mid a, P mid a → R mid a) : Observed Step failing R s r s' := by
  obtain ⟨a, m, hr, hbefore, hP, hafter⟩ | hfails := h
  · exact .inl ⟨a, m, hr, hbefore, hR m a hP, hafter⟩
  · exact .inr hfails

theorem Observed.mapError {r : Except ε α} (f : ε → ε') (h : Observed Step failing P s r s') :
    Observed Step failing P s (r.mapError f) s' := by
  obtain ⟨a, m, rfl, hmoment⟩ | ⟨hfailing, ⟨e, rfl⟩, hreaches⟩ := h
  · exact .inl ⟨a, m, rfl, hmoment⟩
  · exact .inr ⟨hfailing, ⟨f e, rfl⟩, hreaches⟩

/-- A composition whose first part is observed. -/
theorem Observed.split {x : ExceptT ε (Program A) α} {f : α → ExceptT ε (Program A) β} {r : Except ε β}
    (h : Interleaved Step Answers (x >>= f).run s r s')
    (hx : ∀ first mid, Interleaved Step Answers x.run s first mid → Observed Step failing P s first mid) :
    (∃ a seen mid, ReflTransGen Step s seen ∧ P seen a ∧ ReflTransGen Step seen mid ∧
      Interleaved Step Answers (f a).run mid r s') ∨
    (failing ∧ (∃ e, r = .error e) ∧ ReflTransGen Step s s') := by
  obtain ⟨e, rfl, hfirst⟩ | ⟨a, mid, hfirst, hrest⟩ := interleaved_exceptT_bind h
  · obtain ⟨a, m, herror, -⟩ | ⟨hfailing, -, hreaches⟩ := hx _ _ hfirst
    · cases herror
    · exact .inr ⟨hfailing, ⟨e, rfl⟩, hreaches⟩
  · obtain ⟨b, seen, hok, hbefore, hP, hafter⟩ | ⟨-, ⟨e, herror⟩, -⟩ := hx _ _ hfirst
    · cases hok
      exact .inl ⟨a, seen, mid, hbefore, hP, hafter, hrest⟩
    · cases herror

theorem Observed.bind {x : ExceptT ε (Program A) α} {f : α → ExceptT ε (Program A) β} {r : Except ε β}
    {R : σ → β → Prop} (h : Interleaved Step Answers (x >>= f).run s r s')
    (hx : ∀ first mid, Interleaved Step Answers x.run s first mid → Observed Step failing P s first mid)
    (hf : ∀ a seen mid, ReflTransGen Step s seen → P seen a → ReflTransGen Step seen mid →
      Interleaved Step Answers (f a).run mid r s' → Observed Step failing R seen r s') :
    Observed Step failing R s r s' := by
  obtain ⟨a, seen, mid, hbefore, hP, hafter, hrest⟩ | ⟨hfailing, he, hreaches⟩ := Observed.split h hx
  · exact .head hbefore (hf a seen mid hbefore hP hafter hrest)
  · exact .inr ⟨hfailing, he, hreaches⟩

end Observed

/-! ## One question after the other -/

section Sessions
variable {σ ι ρ : Type} {Step : σ → σ → Prop} {Asks : ι → σ → ρ → σ → Prop} {s s' : σ}
  {asked : List (ι × ρ)} {P : ι × ρ → σ → Prop}

/-- The questions of one client with their answers; others take steps before, between and after them. -/
inductive Session (Step : σ → σ → Prop) (Asks : ι → σ → ρ → σ → Prop) : σ → List (ι × ρ) → σ → Prop where
  | done {s s' : σ} (steps : ReflTransGen Step s s') : Session Step Asks s [] s'
  | ask {s before after s' : σ} {question : ι} {answer : ρ} {later : List (ι × ρ)}
      (steps : ReflTransGen Step s before) (asks : Asks question before answer after)
      (rest : Session Step Asks after later s') : Session Step Asks s ((question, answer) :: later) s'

/-- Answers that are right at one moment each are right at moments that follow one another. -/
theorem Session.moments (h : Session Step Asks s asked s')
    (hmoment : ∀ a ∈ asked, ∀ before after, ReflTransGen Step s before → Asks a.1 before a.2 after →
      ∃ mid, ReflTransGen Step before mid ∧ P a mid ∧ ReflTransGen Step mid after) :
    asked.Pairwise (fun a b => ∃ first second, P a first ∧ P b second ∧
        ReflTransGen Step first second ∧ ReflTransGen Step second s') ∧
      (∀ a ∈ asked, ∃ mid, P a mid ∧ ReflTransGen Step s mid ∧ ReflTransGen Step mid s') ∧
        ReflTransGen Step s s' := by
  induction h with
  | done steps => exact ⟨.nil, List.forall_mem_nil _, steps⟩
  | ask steps asks _ ih =>
    rw [List.forall_mem_cons] at hmoment
    obtain ⟨mid, hbefore, hP, hafter⟩ := hmoment.1 _ _ steps asks
    have hreaches := (steps.trans hbefore).trans hafter
    obtain ⟨horder, hlater, hend⟩ := ih fun a ha before after hsteps =>
      hmoment.2 a ha before after (hreaches.trans hsteps)
    refine ⟨.cons (fun b hb => ?_) horder, List.forall_mem_cons.mpr ⟨?_, fun b hb => ?_⟩, hreaches.trans hend⟩
    · obtain ⟨second, hsecond, hsteps, hrest⟩ := hlater b hb
      exact ⟨mid, second, hP, hsecond, hafter.trans hsteps, hrest⟩
    · exact ⟨mid, hP, steps.trans hbefore, hafter.trans hend⟩
    · obtain ⟨second, hsecond, hsteps, hrest⟩ := hlater b hb
      exact ⟨second, hsecond, hreaches.trans hsteps, hrest⟩

end Sessions
end Interaction
