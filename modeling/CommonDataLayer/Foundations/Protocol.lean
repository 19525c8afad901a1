import CommonDataLayer.Foundations.Program

/-! # Protocols

A protocol says which calls may be made in a phase, and which phase comes after an answer. A program
follows it if, whatever the answers are, each of its calls is allowed in the phase it has reached.

* `Follows P post p phase`: from `phase` on, `p` follows `P`, and where it returns, `post` holds.
  `Follows.steps`: what is left of it does so after any of its steps.
* `Follows.bind`: sequential composition. `follows_embed`: a program whose calls are renamed.
* `Follows.except_bind`: that of fallible programs.
* `FollowsOk`: the same for fallible programs, with a condition on the values they return; `Stays`:
  these values are returned in the phase in which the program started.
-/
namespace Interaction
set_option autoImplicit false

structure Protocol {Q : Type} (A : Q → Type) (Phase : Type) where
  Allows : Phase → Q → Prop
  after : Phase → (q : Q) → A q → Phase

/-- The protocol for calls that are renamed into its own. -/
def Protocol.comap {Q Q' Phase : Type} {A : Q → Type} (P : Protocol A Phase) (f : Q' → Q) :
    Protocol (fun q => A (f q)) Phase where
  Allows phase q := P.Allows phase (f q)
  after phase q a := P.after phase (f q) a

/-- The phase that these calls lead to. -/
def Protocol.reached {Q Phase : Type} {A : Q → Type} (P : Protocol A Phase) (phase : Phase)
    (t : List (Event A)) : Phase :=
  t.foldl (fun phase e => P.after phase e.1 e.2) phase

namespace Program
variable {Q Phase : Type} {A : Q → Type} {α β ε : Type}

def Follows (P : Protocol A Phase) (post : α → Phase → Prop) : Program A α → Phase → Prop
  | ret a, phase => post a phase
  | call q next, phase => P.Allows phase q ∧ ∀ a, (next a).Follows P post (P.after phase q a)

variable {P : Protocol A Phase} {phase : Phase} {post post' : α → Phase → Prop}

theorem follows_bind {p : Program A α} {f : α → Program A β} {post : β → Phase → Prop} :
    (p.bind f).Follows P post phase ↔
      p.Follows P (fun a reached => (f a).Follows P post reached) phase := by
  induction p generalizing phase with
  | ret a => rfl
  | call q next ih => exact and_congr_right fun _ => forall_congr' fun a => ih a

theorem Follows.imp {p : Program A α} (h : p.Follows P post phase)
    (hpost : ∀ a reached, post a reached → post' a reached) : p.Follows P post' phase := by
  induction p generalizing phase with
  | ret a => exact hpost a phase h
  | call q next ih => exact ⟨h.1, fun a => ih a (h.2 a)⟩

theorem Follows.bind {p : Program A α} {f : α → Program A β} {post' : β → Phase → Prop}
    (h : p.Follows P post phase)
    (hf : ∀ a reached, post a reached → (f a).Follows P post' reached) :
    (p.bind f).Follows P post' phase :=
  follows_bind.mpr (h.imp hf)

theorem Follows.steps {p p' : Program A α} {t : List (Event A)} (h : p.Follows P post phase)
    (hsteps : Steps p t p') : p'.Follows P post (P.reached phase t) := by
  induction hsteps generalizing phase with
  | refl p => exact h
  | call _ ih => exact ih (h.2 _)

/-- A program with the calls of another one, under other names. -/
theorem follows_embed {Q' : Type} {f : Q' → Q} {p : Program (fun q => A (f q)) α} :
    (p.embed f).Follows P post phase ↔ p.Follows (P.comap f) post phase := by
  induction p generalizing phase with
  | ret a => rfl
  | call q next ih => exact and_congr_right fun _ => forall_congr' fun a => ih a

/-! ## Fallible programs -/

/-- A fallible program that follows `P`; where it returns a value, `post` holds. -/
def FollowsOk (P : Protocol A Phase) (post : α → Phase → Prop) (x : ExceptT ε (Program A) α)
    (phase : Phase) : Prop :=
  x.run.Follows P (fun r reached => ∀ a, r = .ok a → post a reached) phase

variable {x : ExceptT ε (Program A) α} {f : α → ExceptT ε (Program A) β}

theorem followsOk_mk_ret {r : Except ε α} : FollowsOk P post (ExceptT.mk (ret r)) phase ↔
    ∀ a, r = .ok a → post a phase := Iff.rfl

theorem followsOk_pure {a : α} (h : post a phase) :
    FollowsOk P post (pure a : ExceptT ε (Program A) α) phase := by
  intro b hb
  cases hb
  exact h

theorem followsOk_throw (e : ε) :
    FollowsOk P post (throw e : ExceptT ε (Program A) α) phase := by
  intro a ha
  cases ha

/-- A fallible program, where its error is passed on. -/
theorem Follows.except_bind {post : Except ε α → Phase → Prop} {post' : Except ε β → Phase → Prop}
    (hx : x.run.Follows P post phase)
    (hf : ∀ a reached, post (.ok a) reached → (f a).run.Follows P post' reached)
    (herror : ∀ e reached, post (.error e) reached → post' (.error e) reached) :
    (x >>= f).run.Follows P post' phase := by
  show (x.run.bind (ExceptT.bindCont f)).Follows P _ phase
  refine Follows.bind hx fun r reached hr => ?_
  cases r with
  | ok a => exact hf a reached hr
  | error e => exact herror e reached hr

theorem FollowsOk.bind {post' : β → Phase → Prop} (hx : FollowsOk P post x phase)
    (hf : ∀ a reached, post a reached → FollowsOk P post' (f a) reached) :
    FollowsOk P post' (x >>= f) phase :=
  Follows.except_bind hx (fun a reached hr => hf a reached (hr a rfl)) fun _ _ _ _ hb => nomatch hb

/-- One call, whose answer is the result. -/
theorem followsOk_call {q : Q} {convert : A q → Except ε α} (hq : P.Allows phase q)
    (hanswer : ∀ a b, convert a = .ok b → post b (P.after phase q a)) :
    FollowsOk P post (ExceptT.mk ((perform q).bind fun a => ret (convert a))) phase :=
  ⟨hq, hanswer⟩

/-- A fallible program that follows `P` and returns its values in the phase in which it started. -/
def Stays (P : Protocol A Phase) (x : ExceptT ε (Program A) α) (phase : Phase) : Prop :=
  FollowsOk P (fun _ reached => reached = phase) x phase

theorem stays_mk_ret (r : Except ε α) : Stays P (ExceptT.mk (ret r)) phase := fun _ _ => rfl

theorem Stays.followsOk_bind {post : β → Phase → Prop} (hx : Stays P x phase)
    (hf : ∀ a, FollowsOk P post (f a) phase) : FollowsOk P post (x >>= f) phase := by
  refine FollowsOk.bind hx fun a reached hreached => ?_
  subst hreached
  exact hf a

theorem Stays.bind (hx : Stays P x phase) (hf : ∀ a, Stays P (f a) phase) :
    Stays P (x >>= f) phase :=
  hx.followsOk_bind hf

end Program
end Interaction
