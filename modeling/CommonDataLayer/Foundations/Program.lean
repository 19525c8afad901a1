import Mathlib.Data.List.Forall2

/-! # Programs that make calls

The body of an asynchronous function is a tree: it returns, or it makes a call and goes on with
the answer. Nothing here fixes what the calls are or who answers them.

* `Program A α`: the calls are the `q : Q`, a call `q` is answered by an `A q`.
* `Program.run h`: the sequential meaning, with `h` answering every call over one state.
* `Steps p t p'`: the calls `t`, with those answers, lead from `p` to `p'`; `Returns` ends in a
  value. `steps_bind` takes a sequential composition apart.
* `All P p`: whatever the answers are, `p` makes only calls in `P`. `AllUnder P S p` assumes that
  the answers are in `P`, and `exists_stopped` finds such answers up to a call that has none.
* Sequences of `Except` results (`bind_eq_ok`, `mapM_eq_ok_iff`, `mapM_error`).
-/
namespace Interaction
set_option autoImplicit false

/-- A program over the calls `Q`, whose answers have the types `A`. -/
inductive Program {Q : Type} (A : Q → Type) (α : Type) : Type where
  | ret (a : α)
  | call (q : Q) (next : A q → Program A α)

/-- A call together with its answer. -/
abbrev Event {Q : Type} (A : Q → Type) : Type := Σ q, A q

namespace Program
variable {Q : Type} {A : Q → Type} {α β γ σ : Type}

/-- Sequential composition. -/
def bind : Program A α → (α → Program A β) → Program A β
  | ret a, f => f a
  | call q next, f => call q fun a => (next a).bind f

instance : Monad (Program A) where
  pure := ret
  bind := bind

/-- The program that makes one call and returns its answer. -/
def perform (q : Q) : Program A (A q) := call q ret

theorem bind_ret (p : Program A α) : p.bind ret = p := by
  induction p with
  | ret a => rfl
  | call q next ih => exact congrArg (call q) (funext ih)

theorem bind_bind (p : Program A α) (f : α → Program A β) (g : β → Program A γ) :
    (p.bind f).bind g = p.bind fun a => (f a).bind g := by
  induction p with
  | ret a => rfl
  | call q next ih => exact congrArg (call q) (funext ih)

instance : LawfulMonad (Program A) :=
  LawfulMonad.mk' (Program A) bind_ret (fun _ _ => rfl) bind_bind

@[simp] theorem bind_eq (p : Program A α) (f : α → Program A β) : p >>= f = p.bind f := rfl
@[simp] theorem pure_eq (a : α) : (pure a : Program A α) = ret a := rfl
@[simp] theorem ret_bind (a : α) (f : α → Program A β) : (ret a).bind f = f a := rfl
@[simp] theorem call_bind (q : Q) (next : A q → Program A α) (f : α → Program A β) :
    (call q next).bind f = call q fun a => (next a).bind f := rfl

/-- The same program over a larger set of calls. -/
def embed {Q' : Type} (f : Q' → Q) : Program (fun q => A (f q)) α → Program A α
  | ret a => ret a
  | call q next => call (f q) fun a => (next a).embed f

/-! ## The sequential meaning -/

/-- Runs a program on one state, `h` answering the calls. -/
def run (h : (q : Q) → σ → A q × σ) : Program A α → σ → α × σ
  | ret a, s => (a, s)
  | call q next, s => (next (h q s).1).run h (h q s).2

@[simp] theorem run_ret (h : (q : Q) → σ → A q × σ) (a : α) (s : σ) :
    (ret a : Program A α).run h s = (a, s) := rfl

@[simp] theorem run_call (h : (q : Q) → σ → A q × σ) (q : Q) (next : A q → Program A α) (s : σ) :
    (call q next).run h s = (next (h q s).1).run h (h q s).2 := rfl

theorem run_bind (h : (q : Q) → σ → A q × σ) (p : Program A α) (f : α → Program A β) (s : σ) :
    (p.bind f).run h s = (f (p.run h s).1).run h (p.run h s).2 := by
  induction p generalizing s with
  | ret a => rfl
  | call q next ih => exact ih _ _

/-- Running a fallible program and going on with its value. -/
theorem run_exceptT_bind {ε : Type} (h : (q : Q) → σ → A q × σ) (x : ExceptT ε (Program A) α)
    (f : α → ExceptT ε (Program A) β) (s : σ) : run h (x >>= f).run s =
      match run h x.run s with
      | (.ok a, s') => run h (f a).run s'
      | (.error e, s') => (.error e, s') := by
  show run h (x.run.bind (ExceptT.bindCont f)) s = _
  rw [run_bind]
  generalize run h x.run s = result
  obtain ⟨r, s'⟩ := result
  cases r <;> rfl

end Program

/-! ## Traces -/

section Traces
variable {Q : Type} {A : Q → Type} {α β : Type}

/-- `Steps p t p'`: the calls `t`, with the answers they record, lead from `p` to `p'`. -/
inductive Steps : Program A α → List (Event A) → Program A α → Prop where
  | refl (p : Program A α) : Steps p [] p
  | call {q : Q} {next : A q → Program A α} {a : A q} {t : List (Event A)} {p' : Program A α}
      (rest : Steps (next a) t p') : Steps (.call q next) (⟨q, a⟩ :: t) p'

/-- The calls `t` lead from `p` to the value `a`. -/
abbrev Returns (p : Program A α) (t : List (Event A)) (a : α) : Prop := Steps p t (.ret a)

@[simp] theorem steps_nil {p p' : Program A α} : Steps p [] p' ↔ p = p' :=
  ⟨fun h => by cases h; rfl, fun h => h ▸ .refl p⟩

@[simp] theorem steps_call_cons {q : Q} {next : A q → Program A α} {a : A q}
    {t : List (Event A)} {p' : Program A α} :
    Steps (.call q next) (⟨q, a⟩ :: t) p' ↔ Steps (next a) t p' :=
  ⟨fun h => by cases h; assumption, .call⟩

@[simp] theorem steps_ret {a : α} {t : List (Event A)} {p' : Program A α} :
    Steps (.ret a) t p' ↔ t = [] ∧ p' = .ret a := by
  constructor
  · intro h; cases h; exact ⟨rfl, rfl⟩
  · rintro ⟨rfl, rfl⟩; exact .refl _

/-- What a step out of a program says about the program. -/
theorem Steps.cons_inv {p p' : Program A α} {e : Event A} {t : List (Event A)}
    (h : Steps p (e :: t) p') : ∃ next, p = .call e.1 next ∧ Steps (next e.2) t p' := by
  cases h with
  | call rest => exact ⟨_, rfl, rest⟩

theorem returns_call {q : Q} {next : A q → Program A α} {t : List (Event A)} {b : α} :
    Returns (.call q next) t b ↔ ∃ a t', t = ⟨q, a⟩ :: t' ∧ Returns (next a) t' b := by
  constructor
  · intro h
    cases h with
    | call rest => exact ⟨_, _, rfl, rest⟩
  · rintro ⟨a, t', rfl, rest⟩
    exact .call rest

theorem steps_append {p p' : Program A α} {t₁ t₂ : List (Event A)} :
    Steps p (t₁ ++ t₂) p' ↔ ∃ mid, Steps p t₁ mid ∧ Steps mid t₂ p' := by
  induction t₁ generalizing p with
  | nil => simp
  | cons e t₁ ih =>
    constructor
    · intro h
      obtain ⟨next, rfl, hr⟩ := h.cons_inv
      obtain ⟨mid, h₁, h₂⟩ := ih.mp hr
      exact ⟨mid, .call h₁, h₂⟩
    · rintro ⟨mid, h₁, h₂⟩
      obtain ⟨next, rfl, hr⟩ := h₁.cons_inv
      exact .call (ih.mpr ⟨mid, hr, h₂⟩)

theorem Steps.trans {p mid p' : Program A α} {t₁ t₂ : List (Event A)}
    (h₁ : Steps p t₁ mid) (h₂ : Steps mid t₂ p') : Steps p (t₁ ++ t₂) p' :=
  steps_append.mpr ⟨mid, h₁, h₂⟩

theorem Steps.bind {p p' : Program A α} {t : List (Event A)} (h : Steps p t p')
    (f : α → Program A β) : Steps (p.bind f) t (p'.bind f) := by
  induction h with
  | refl p => exact .refl _
  | call _ ih => exact .call ih

/-- A composition is still in its first part, or its first part has returned. -/
theorem steps_bind {p : Program A α} {f : α → Program A β} {t : List (Event A)}
    {r : Program A β} (h : Steps (p.bind f) t r) :
    (∃ p', Steps p t p' ∧ r = p'.bind f) ∨
      ∃ a t₁ t₂, t = t₁ ++ t₂ ∧ Returns p t₁ a ∧ Steps (f a) t₂ r := by
  induction p generalizing t with
  | ret a => exact .inr ⟨a, [], t, rfl, .refl _, h⟩
  | call q next ih =>
    cases h with
    | refl => exact .inl ⟨.call q next, .refl _, rfl⟩
    | @call _ _ b t _ rest =>
      rcases ih b rest with ⟨p', hp, hr⟩ | ⟨a, t₁, t₂, ht, h₁, h₂⟩
      · exact .inl ⟨p', .call hp, hr⟩
      · exact .inr ⟨a, ⟨q, b⟩ :: t₁, t₂, by rw [ht, List.cons_append], .call h₁, h₂⟩

theorem returns_bind {p : Program A α} {f : α → Program A β} {t : List (Event A)} {b : β} :
    Returns (p.bind f) t b ↔
      ∃ a t₁ t₂, t = t₁ ++ t₂ ∧ Returns p t₁ a ∧ Returns (f a) t₂ b := by
  constructor
  · intro h
    rcases steps_bind h with ⟨p', hp, hr⟩ | h
    · cases p' with
      | ret a => exact ⟨a, t, [], by simp, hp, by simpa using hr.symm⟩
      | call q next => cases hr
    · exact h
  · rintro ⟨a, t₁, t₂, rfl, h₁, h₂⟩
    exact (h₁.bind f).trans h₂

@[simp] theorem returns_perform {q : Q} {t : List (Event A)} {a : A q} :
    Returns (Program.perform q) t a ↔ t = [⟨q, a⟩] := by
  constructor
  · intro h
    cases h with
    | call rest =>
      obtain ⟨rfl, ha⟩ := steps_ret.mp rest
      cases ha
      rfl
  · rintro rfl
    exact .call (.refl _)

/-! ## Programs that make only some calls -/

/-- Whatever the answers are, the program makes only calls in `P`. -/
def Program.All (P : Q → Prop) : Program A α → Prop
  | .ret _ => True
  | .call q next => P q ∧ ∀ a, (next a).All P

theorem Program.All.bind {P : Q → Prop} {p : Program A α} {f : α → Program A β}
    (hp : p.All P) (hf : ∀ a, (f a).All P) : (p.bind f).All P := by
  induction p with
  | ret a => exact hf a
  | call q next ih => exact ⟨hp.1, fun a => ih a (hp.2 a)⟩

theorem Program.All.steps {P : Q → Prop} {p p' : Program A α} {t : List (Event A)}
    (hp : p.All P) (h : Steps p t p') : p'.All P := by
  induction h with
  | refl => exact hp
  | call _ ih => exact ih (hp.2 _)

theorem Program.All.mem {P : Q → Prop} {p p' : Program A α} {t : List (Event A)}
    (hp : p.All P) (h : Steps p t p') {e : Event A} (he : e ∈ t) : P e.1 := by
  induction h with
  | refl => cases he
  | call _ ih =>
    rcases List.mem_cons.mp he with rfl | he
    · exact hp.1
    · exact ih (hp.2 _) he

/-- A call that the first part of a composition never makes is made by the second part. -/
theorem steps_bind_call {P : Q → Prop} {p : Program A α} {f : α → Program A β}
    {t : List (Event A)} {q : Q} {next : A q → Program A β} (hp : p.All P) (hq : ¬ P q)
    (h : Steps (p.bind f) t (.call q next)) :
    ∃ a t₁ t₂, t = t₁ ++ t₂ ∧ Returns p t₁ a ∧ Steps (f a) t₂ (.call q next) := by
  rcases steps_bind h with ⟨p', hp', hr⟩ | h
  · cases p' with
    | ret a => exact ⟨a, t, [], by simp, hp', by simpa using hr.symm⟩
    | call q' next' =>
      cases hr
      exact absurd (hp.steps hp').1 hq
  · exact h

/-! ## Programs under an assumption on the answers -/

/-- As long as the answers are in `P`, the program makes only calls in `S`. -/
def Program.AllUnder (P : Event A → Prop) (S : Q → Prop) : Program A α → Prop
  | .ret _ => True
  | .call q next => S q ∧ ∀ a, P ⟨q, a⟩ → (next a).AllUnder P S

theorem Program.AllUnder.bind {P : Event A → Prop} {S : Q → Prop} {p : Program A α}
    {f : α → Program A β} (hp : p.AllUnder P S) (hf : ∀ a, (f a).AllUnder P S) :
    (p.bind f).AllUnder P S := by
  induction p with
  | ret a => exact hf a
  | call q next ih => exact ⟨hp.1, fun a ha => ih a (hp.2 a ha)⟩

theorem Program.AllUnder.mono {P : Event A → Prop} {S S' : Q → Prop} {p : Program A α}
    (hp : p.AllUnder P S) (h : ∀ q, S q → S' q) : p.AllUnder P S' := by
  induction p with
  | ret a => trivial
  | call q next ih => exact ⟨h q hp.1, fun a ha => ih a (hp.2 a ha)⟩

theorem Program.All.under {S : Q → Prop} {p : Program A α} (hp : p.All S) (P : Event A → Prop) :
    p.AllUnder P S := by
  induction p with
  | ret a => trivial
  | call q next ih => exact ⟨hp.1, fun a _ => ih a (hp.2 a)⟩

theorem Program.AllUnder.steps {P : Event A → Prop} {S : Q → Prop} {p p' : Program A α}
    {t : List (Event A)} (hp : p.AllUnder P S) (h : Steps p t p') (ht : ∀ e ∈ t, P e) :
    p'.AllUnder P S := by
  induction h with
  | refl => exact hp
  | call _ ih =>
    rw [List.forall_mem_cons] at ht
    exact ih (hp.2 _ ht.1) ht.2

/-- Where a program stops for want of an answer: at its end, or at a call that has none in `P`. -/
theorem exists_stopped {P : Event A → Prop} {S : Q → Prop} (hanswer : ∀ q, S q → ∃ a, P ⟨q, a⟩)
    (p : Program A α) : ∃ t p', Steps p t p' ∧ (∀ e ∈ t, P e) ∧
      ((∃ a, p' = .ret a) ∨ ∃ q next, ¬ S q ∧ p' = .call q next) := by
  induction p with
  | ret a => exact ⟨[], .ret a, .refl _, List.forall_mem_nil _, .inl ⟨a, rfl⟩⟩
  | call q next ih =>
    by_cases hq : S q
    · obtain ⟨a, ha⟩ := hanswer q hq
      obtain ⟨t, p', hsteps, ht, hstopped⟩ := ih a
      exact ⟨⟨q, a⟩ :: t, p', .call hsteps, List.forall_mem_cons.mpr ⟨ha, ht⟩, hstopped⟩
    · exact ⟨[], _, .refl _, List.forall_mem_nil _, .inr ⟨q, next, hq, rfl⟩⟩

end Traces

/-! ## Fallible results -/

section Results
variable {ε α β : Type}

@[simp] theorem ok_bind (a : α) (f : α → Except ε β) : (Except.ok a >>= f) = f a := rfl

@[simp] theorem error_bind (e : ε) (f : α → Except ε β) :
    ((Except.error e : Except ε α) >>= f) = .error e := rfl

theorem bind_pure_ok (x : Except ε α) : (x >>= fun a => .ok a) = x := by
  cases x <;> rfl

theorem bind_eq_ok {x : Except ε α} {f : α → Except ε β} {b : β} :
    x >>= f = .ok b ↔ ∃ a, x = .ok a ∧ f a = .ok b := by
  cases x with
  | error e => simp
  | ok a => simp

theorem bind_eq_error {x : Except ε α} {f : α → Except ε β} {e : ε} :
    (x >>= f) = .error e ↔ x = .error e ∨ ∃ a, x = .ok a ∧ f a = .error e := by
  cases x <;> simp

theorem map_eq_ok {x : Except ε α} {f : α → β} {b : β} :
    x.map f = .ok b ↔ ∃ a, x = .ok a ∧ f a = b := by
  cases x with
  | error e => simp [Except.map]
  | ok a => simp [Except.map]

theorem mapM_eq_ok_iff {f : α → Except ε β} {items : List α} {results : List β} :
    items.mapM f = .ok results ↔
      List.Forall₂ (fun item result => f item = .ok result) items results := by
  induction items generalizing results with
  | nil =>
    rw [List.forall₂_nil_left_iff]
    exact ⟨fun h => (Except.ok.inj h).symm, fun h => congrArg Except.ok h.symm⟩
  | cons item items ih =>
    rw [List.mapM_cons, bind_eq_ok, List.forall₂_cons_left_iff]
    refine exists_congr fun first => ?_
    rw [bind_eq_ok]
    constructor
    · rintro ⟨hfirst, rest, hrest, heq⟩
      exact ⟨rest, hfirst, ih.mp hrest, (Except.ok.inj heq).symm⟩
    · rintro ⟨rest, hfirst, hrest, rfl⟩
      exact ⟨hfirst, rest, ih.mpr hrest, rfl⟩

/-- Every result comes from one of the items. -/
theorem mapM_ok {f : α → Except ε β} {items : List α} {results : List β}
    (h : items.mapM f = .ok results) :
    results.length = items.length ∧ ∀ result ∈ results, ∃ item ∈ items, f item = .ok result := by
  have hall := mapM_eq_ok_iff.mp h
  refine ⟨hall.length_eq.symm, ?_⟩
  clear h
  induction hall with
  | nil => exact List.forall_mem_nil _
  | cons hfirst _ ih =>
    refine List.forall_mem_cons.mpr ⟨⟨_, List.mem_cons_self, hfirst⟩, fun result hresult => ?_⟩
    obtain ⟨other, hother, heq⟩ := ih result hresult
    exact ⟨other, List.mem_cons_of_mem _ hother, heq⟩

/-- An error comes from one of the items. -/
theorem mapM_error {f : α → Except ε β} {items : List α} {e : ε} (h : items.mapM f = .error e) :
    ∃ item ∈ items, f item = .error e := by
  induction items with
  | nil => cases h
  | cons item items ih =>
    rw [List.mapM_cons] at h
    cases hitem : f item with
    | error e' =>
      rw [hitem] at h
      cases h
      exact ⟨item, List.mem_cons_self, hitem⟩
    | ok first =>
      rw [hitem, ok_bind] at h
      cases hrest : items.mapM f with
      | error e' =>
        rw [hrest] at h
        cases h
        obtain ⟨other, hother, heq⟩ := ih hrest
        exact ⟨other, List.mem_cons_of_mem item hother, heq⟩
      | ok rest =>
        rw [hrest] at h
        cases h

end Results

end Interaction
