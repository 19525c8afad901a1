import Mathlib.Data.Seq.Basic

/-! # Streams that end at their first error

`try_stream!` turns a body that reads a source and yields into a stream. A `?` on an error yields
the error and ends the stream, whatever the source still holds.

* `Generator.next`: one item of the stream, whose body works on a state of its own.
* `Loop.round`: one round of `while let Some(item) = stream.next().await`, whose body may leave it.
* `passed_rounds`: a loop that logs errors and goes on gets the messages before the first error.
* `passesAll_iff`: these are all messages exactly if no message comes after an error.
-/
namespace TryStream
open Stream' (Seq)
set_option autoImplicit false

variable {ε A M σ W : Type}

inductive Generator (ε A σ : Type) where
  | running (source : Seq (Except ε A)) (state : σ)
  | ended

def Generator.next (body : σ → A → M × σ) :
    Generator ε A σ → Option (Except ε M) × Generator ε A σ
  | .ended => (none, .ended)
  | .running source state =>
    match source.destruct with
    | none => (none, .ended)
    | some (.error e, _) => (some (.error e), .ended)
    | some (.ok a, source) => (some (.ok (body state a).1), .running source (body state a).2)

structure Loop (ε A σ W : Type) where
  stream : Generator ε A σ
  world : W
  left : Bool

def Loop.round (body : σ → A → M × σ) (handle : W → Except ε M → Option W) (loop : Loop ε A σ W) :
    Loop ε A σ W :=
  if loop.left then loop
  else match loop.stream.next body with
    | (none, stream) => { loop with stream := stream, left := true }
    | (some item, stream) => match handle loop.world item with
      | none => { loop with stream := stream, left := true }
      | some world => { stream := stream, world := world, left := false }

def Loop.rounds (body : σ → A → M × σ) (handle : W → Except ε M → Option W) (n : ℕ)
    (loop : Loop ε A σ W) : Loop ε A σ W := (Loop.round body handle)^[n] loop

def messages (results : List (Except ε A)) : List A := results.filterMap Except.toOption

def beforeError : List (Except ε A) → List A
  | .ok a :: results => a :: beforeError results
  | _ => []

/-- However far one looks ahead, the messages up to there are passed on at some time. -/
def PassesAll (convert : A → M) (results : Seq (Except ε A)) (passed : ℕ → List M) : Prop :=
  ∀ N, ∃ n, (messages (results.take N)).map convert <+: passed n

def NoMessageAfterError (results : Seq (Except ε A)) : Prop :=
  ∀ i j e a, i < j → results.get? i = some (.error e) → results.get? j ≠ some (.ok a)

/-! ## What a loop gets -/

section Rounds
variable {body : σ → A → M × σ} {handle : W → Except ε M → Option W} {loop : Loop ε A σ W}

theorem rounds_left (h : loop.left = true) (n : ℕ) : loop.rounds body handle n = loop := by
  have hround : loop.round body handle = loop := by simp [Loop.round, h]
  exact Function.iterate_fixed hround n

theorem rounds_succ (n : ℕ) :
    loop.rounds body handle (n + 1) = (loop.round body handle).rounds body handle n :=
  Function.iterate_succ_apply _ n loop

/-- After the end nothing comes any more. -/
theorem rounds_ended (n : ℕ) (world : W) :
    (Loop.rounds body handle n ⟨.ended, world, false⟩).world = world := by
  cases n with
  | zero => rfl
  | succ n =>
    rw [rounds_succ, rounds_left (by simp [Loop.round, Generator.next])]
    simp [Loop.round, Generator.next]

/-- `passed` is what a body that never leaves has passed on. -/
theorem passed_rounds {convert : A → M} (passed : W → List M)
    (hbody : ∀ state a, (body state a).1 = convert a)
    (hok : ∀ world m, ∃ world', handle world (.ok m) = some world' ∧ passed world' = passed world ++ [m])
    (herror : ∀ world e, ∃ world', handle world (.error e) = some world' ∧ passed world' = passed world)
    (n : ℕ) (source : Seq (Except ε A)) (state : σ) (world : W) :
    passed (Loop.rounds body handle n ⟨.running source state, world, false⟩).world =
      passed world ++ (beforeError (source.take n)).map convert := by
  induction n generalizing source state world with
  | zero => simp [Loop.rounds, beforeError]
  | succ n ih =>
    rw [rounds_succ]
    cases hsource : source.destruct with
    | none =>
      rw [rounds_left (by simp [Loop.round, Generator.next, hsource])]
      simp [Loop.round, Generator.next, hsource, Seq.take, beforeError]
    | some first =>
      obtain ⟨result, source'⟩ := first
      cases result with
      | error e =>
        obtain ⟨world', hhandle, hpassed⟩ := herror world e
        have hround : Loop.round body handle ⟨.running source state, world, false⟩ =
            ⟨.ended, world', false⟩ := by simp [Loop.round, Generator.next, hsource, hhandle]
        rw [hround, rounds_ended, hpassed]
        simp [Seq.take, hsource, beforeError]
      | ok a =>
        obtain ⟨world', hhandle, hpassed⟩ := hok world (convert a)
        have hround : Loop.round body handle ⟨.running source state, world, false⟩ =
            ⟨.running source' (body state a).2, world', false⟩ := by
          simp [Loop.round, Generator.next, hsource, hbody, hhandle]
        rw [hround, ih, hpassed]
        simp [Seq.take, hsource, beforeError]

end Rounds

/-! ## All messages -/

variable {convert : A → M}

theorem messages_eq_beforeError {results : List (Except ε A)}
    (h : results.Pairwise fun r r' => ∀ e a, r = .error e → r' ≠ .ok a) :
    messages results = beforeError results := by
  induction results with
  | nil => rfl
  | cons result results ih =>
    rw [List.pairwise_cons] at h
    cases result with
    | ok a => simpa [messages, beforeError, Except.toOption] using ih h.2
    | error e =>
      have hnone : ∀ r ∈ results, r.toOption = none := by
        intro r hr
        cases r with
        | error e' => rfl
        | ok a => exact absurd rfl (h.1 _ hr e a rfl)
      simpa [messages, beforeError, Except.toOption] using hnone

theorem noMessageAfterError_take {results : Seq (Except ε A)} (h : NoMessageAfterError results) (n : ℕ) :
    (results.take n).Pairwise fun r r' => ∀ e a, r = .error e → r' ≠ .ok a := by
  rw [List.pairwise_iff_getElem]
  rintro i j hi hj hij e a hierror hjok
  have hget (k : ℕ) (hk : k < (results.take n).length) : results.get? k = some (results.take n)[k] := by
    have hkn : k < n := hk.trans_le Seq.length_take_le
    rw [← List.getElem?_eq_getElem hk, Seq.getElem?_take, if_pos hkn]
  exact h i j e a hij (by rw [hget i hi, hierror]) (by rw [hget j hj, hjok])

theorem mem_messages_take {results : Seq (Except ε A)} {j : ℕ} {a : A}
    (h : results.get? j = some (.ok a)) : a ∈ messages (results.take (j + 1)) :=
  List.mem_filterMap.mpr ⟨.ok a, Seq.get?_mem_take (Nat.lt_succ_self j) h, rfl⟩

theorem beforeError_take_error (e : ε) (results : Seq (Except ε A)) (n : ℕ) :
    beforeError ((Seq.cons (.error e) results).take n) = [] := by
  cases n with
  | zero => rfl
  | succ n => rw [Seq.take_succ_cons, beforeError]; simp

/-- By induction on the position of the error; before it, a message is passed on in each round. -/
theorem not_passesAll (i : ℕ) : ∀ (j : ℕ) (e : ε) (a : A) (results : Seq (Except ε A)), i < j →
    results.get? i = some (.error e) → results.get? j = some (.ok a) →
    ¬ PassesAll convert results fun n => (beforeError (results.take n)).map convert := by
  have herrorFirst (j : ℕ) (e : ε) (a : A) (results : Seq (Except ε A))
      (hj : (Seq.cons (.error e) results).get? j = some (.ok a)) :
      ¬ PassesAll convert (Seq.cons (.error e) results) fun n =>
        (beforeError ((Seq.cons (.error e) results).take n)).map convert := by
    intro h
    obtain ⟨n, hn⟩ := h (j + 1)
    dsimp only at hn
    rw [beforeError_take_error, List.map_nil, List.prefix_nil, List.map_eq_nil_iff] at hn
    exact List.ne_nil_of_mem (mem_messages_take hj) hn
  induction i with
  | zero =>
    intro j e a results _ hi hj
    cases hsource : results.destruct with
    | none =>
      rw [Seq.destruct_eq_none hsource] at hi
      cases hi
    | some first =>
      obtain ⟨result, rest⟩ := first
      rw [Seq.destruct_eq_cons hsource] at hi hj ⊢
      rw [Seq.get?_cons_zero, Option.some.injEq] at hi
      subst hi
      exact herrorFirst j e a rest hj
  | succ i ih =>
    intro j e a results hij hi hj
    obtain ⟨j, rfl⟩ : ∃ k, j = k + 1 := ⟨j - 1, by omega⟩
    cases hsource : results.destruct with
    | none =>
      rw [Seq.destruct_eq_none hsource] at hi
      cases hi
    | some first =>
      obtain ⟨result, rest⟩ := first
      rw [Seq.destruct_eq_cons hsource] at hi hj ⊢
      cases result with
      | error e' => exact herrorFirst (j + 1) e' a rest hj
      | ok b =>
        rw [Seq.get?_cons_succ] at hi hj
        intro h
        refine ih j e a rest (by omega) hi hj fun N => ?_
        obtain ⟨n, hn⟩ := h (N + 1)
        cases n with
        | zero => simp [messages, beforeError, Except.toOption] at hn
        | succ n =>
          refine ⟨n, ?_⟩
          simpa [messages, beforeError, Except.toOption] using hn

theorem passesAll_iff {results : Seq (Except ε A)} {passed : ℕ → List M}
    (hpassed : ∀ n, passed n = (beforeError (results.take n)).map convert) :
    PassesAll convert results passed ↔ NoMessageAfterError results := by
  have hfun : passed = fun n => (beforeError (results.take n)).map convert := funext hpassed
  subst hfun
  constructor
  · intro h i j e a hij hierror hjok
    exact not_passesAll i j e a results hij hierror hjok h
  · intro h N
    have heq := messages_eq_beforeError (noMessageAfterError_take h N)
    exact ⟨N, heq ▸ List.prefix_rfl⟩

end TryStream
