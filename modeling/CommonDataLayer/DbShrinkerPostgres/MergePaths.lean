import CommonDataLayer.DbShrinkerPostgres.Replay

/-! # Merging documents, path by path

A path is a list of names that leads through objects. What a merged document has at a path is decided
by what the two documents have there and, above it, by whether the second document replaces
something: `merge_at`.
-/
namespace CommonDataLayer.DbShrinkerPostgres
set_option autoImplicit false

/-- What a document has at a path. -/
def valueAt : Value → List String → Option Value
  | value, [] => some value
  | .object members, key :: path => (members.lookup key).bind fun value => valueAt value path
  | _, _ :: _ => none

/-- Somewhere on the path, its end included, there is something that is no object. -/
def Replaces (value : Value) (path : List String) : Prop :=
  ∃ above found, above <+: path ∧ valueAt value above = some found ∧ ¬ IsObject found

/-- The three cases of a merge at a path. -/
structure MergedAt (a b merged : Value) (path : List String) : Prop where
  replaced : Replaces b path → valueAt merged path = valueAt b path
  joined {members : List (String × Value)} : ¬ Replaces b path →
    valueAt b path = some (.object members) →
    (∀ old, valueAt a path = some (.object old) → ∃ new, valueAt merged path = some (.object new) ∧
      ∀ key, key ∈ new.map (·.1) ↔ key ∈ old.map (·.1) ∨ key ∈ members.map (·.1)) ∧
    ((∀ old, valueAt a path ≠ some (.object old)) → valueAt merged path = some (.object members))
  kept : ¬ Replaces b path → (∀ members, valueAt b path ≠ some (.object members)) →
    valueAt merged path = valueAt a path

/-! ## Paths -/

variable {a b value : Value} {members : List (String × Value)} {key : String} {path : List String}

theorem valueAt_cons (h : ¬ IsObject value) : valueAt value (key :: path) = none := by
  cases value with
  | object members => exact absurd ⟨members, rfl⟩ h
  | _ => rfl

theorem replaces_of_not_object (h : ¬ IsObject value) : Replaces value path :=
  ⟨[], value, List.nil_prefix, rfl, h⟩

theorem not_replaces_nil : ¬ Replaces (.object members) [] := by
  rintro ⟨above, found, habove, hfound, hnot⟩
  obtain rfl := List.prefix_nil.mp habove
  cases hfound
  exact hnot ⟨members, rfl⟩

theorem replaces_cons : Replaces (.object members) (key :: path) ↔
    ∃ next, members.lookup key = some next ∧ Replaces next path := by
  constructor
  · rintro ⟨above, found, habove, hfound, hnot⟩
    cases above with
    | nil =>
      cases hfound
      exact absurd ⟨members, rfl⟩ hnot
    | cons first above =>
      obtain ⟨rfl, hrest⟩ := List.cons_prefix_cons.mp habove
      obtain ⟨next, hnext, hfound⟩ := Option.bind_eq_some_iff.mp hfound
      exact ⟨next, hnext, above, found, hrest, hfound, hnot⟩
  · rintro ⟨next, hnext, above, found, habove, hfound, hnot⟩
    refine ⟨key :: above, found, List.cons_prefix_cons.mpr ⟨rfl, habove⟩, ?_, hnot⟩
    exact Option.bind_eq_some_iff.mpr ⟨next, hnext, hfound⟩

/-- What the second document does not mention. -/
theorem valueAt_eq_none (hnot : ¬ Replaces value path)
    (hobject : ∀ members, valueAt value path ≠ some (.object members)) : valueAt value path = none := by
  by_contra hsome
  obtain ⟨found, hfound⟩ := Option.ne_none_iff_exists'.mp hsome
  have hreplaces : ¬ IsObject found → Replaces value path := fun h =>
    ⟨path, found, List.prefix_rfl, hfound, h⟩
  cases found with
  | object members => exact hobject members hfound
  | _ => exact hnot (hreplaces fun ⟨_, h⟩ => by cases h)

theorem Document.lookup (h : Document (.object members)) {next : Value}
    (hnext : members.lookup key = some next) : Document next := by
  obtain ⟨front, back, rfl, -⟩ := List.lookup_eq_some_iff.mp hnext
  cases h with
  | object names documents => exact documents (key, next) (by simp)

/-! ## The three cases -/

/-- Where one of the two is no object, the second one is the result. -/
theorem mergedAt_replaced (h : ¬ IsObject a ∨ ¬ IsObject b) (path : List String) :
    MergedAt a b b path where
  replaced _ := rfl
  joined hnot hb := by
    refine ⟨fun old hold => ?_, fun _ => hb⟩
    have ha : ¬ IsObject a := h.resolve_right fun hb => hnot (replaces_of_not_object hb)
    cases path with
    | nil =>
      cases hold
      exact absurd ⟨old, rfl⟩ ha
    | cons key path =>
      rw [valueAt_cons ha] at hold
      cases hold
  kept hnot hb := by
    have ha : ¬ IsObject a := h.resolve_right fun hb => hnot (replaces_of_not_object hb)
    have hnone := valueAt_eq_none hnot hb
    cases path with
    | nil => cases hnone
    | cons key path => rw [valueAt_cons ha, hnone]

/-- At the root, two objects give one with the names of both. -/
theorem mergedAt_root {old : List (String × Value)} (hb : Document (.object members)) :
    MergedAt (.object old) (.object members) (merge (.object old) (.object members)) [] where
  replaced h := absurd h not_replaces_nil
  joined _ hmembers := by
    cases hmembers
    refine ⟨fun old' hold => ?_, fun hnone => absurd rfl (hnone old)⟩
    cases hold
    refine ⟨mergeMembers old members, by rw [merge]; rfl, fun key => ?_⟩
    cases hb with
    | object names documents =>
      rw [mem_memberNames, mem_memberNames, mem_memberNames, lookup_mergeMembers names]
      cases members.lookup key <;> simp
  kept _ hnone := absurd rfl (hnone members)

/-- Under a name, the result is the merge of what the two objects have there. -/
theorem valueAt_merge_cons {old : List (String × Value)} (hb : Document (.object members)) :
    valueAt (merge (.object old) (.object members)) (key :: path) =
      match members.lookup key with
      | some next => valueAt (merge ((old.lookup key).getD .null) next) path
      | none => valueAt (.object old) (key :: path) := by
  cases hb with
  | object names documents =>
    rw [merge, valueAt, lookup_mergeMembers names]
    cases members.lookup key <;> rfl

theorem mergedAt_unmentioned {old : List (String × Value)} (hb : Document (.object members))
    (hnext : members.lookup key = none) : MergedAt (.object old) (.object members)
      (merge (.object old) (.object members)) (key :: path) where
  replaced h := by
    obtain ⟨next, hsome, -⟩ := replaces_cons.mp h
    rw [hnext] at hsome
    cases hsome
  joined _ hmembers := by
    obtain ⟨next, hsome, -⟩ := Option.bind_eq_some_iff.mp hmembers
    rw [hnext] at hsome
    cases hsome
  kept _ _ := by rw [valueAt_merge_cons hb, hnext]

/-- From the merge of the two values under a name; a missing one counts as `null`. -/
theorem mergedAt_under {old : List (String × Value)} {next : Value} (hb : Document (.object members))
    (hnext : members.lookup key = some next)
    (h : MergedAt ((old.lookup key).getD .null) next (merge ((old.lookup key).getD .null) next) path) :
    MergedAt (.object old) (.object members) (merge (.object old) (.object members)) (key :: path) := by
  have hmerged : valueAt (merge (.object old) (.object members)) (key :: path) =
      valueAt (merge ((old.lookup key).getD .null) next) path := by
    rw [valueAt_merge_cons hb, hnext]
  have hsecond : valueAt (.object members) (key :: path) = valueAt next path := by
    rw [valueAt, hnext, Option.bind_some]
  have hreplaces : Replaces (.object members) (key :: path) ↔ Replaces next path := by
    rw [replaces_cons, hnext]
    simp
  -- under a missing name there is nothing, and in `null` there is no object
  have hfirst : valueAt (.object old) (key :: path) = valueAt ((old.lookup key).getD .null) path ∨
      valueAt (.object old) (key :: path) = none ∧ (old.lookup key).getD .null = .null := by
    rw [valueAt]
    cases old.lookup key with
    | none => exact .inr ⟨rfl, rfl⟩
    | some value => exact .inl rfl
  have hnull (members : List (String × Value)) : valueAt .null path ≠ some (.object members) := by
    cases path <;> simp [valueAt]
  constructor
  · intro hrep
    rw [hmerged, hsecond, h.replaced (hreplaces.mp hrep)]
  · intro members' hnot hmembers
    rw [hsecond] at hmembers
    obtain ⟨hobject, hother⟩ := h.joined (fun hrep => hnot (hreplaces.mpr hrep)) hmembers
    rw [hmerged]
    rcases hfirst with hfirst | ⟨hfirst, hvalue⟩
    · rw [hfirst]
      exact ⟨hobject, hother⟩
    · rw [hfirst]
      refine ⟨fun old' hold => (by cases hold), fun _ => hother ?_⟩
      rw [hvalue]
      exact hnull
  · intro hnot hmembers
    rw [hsecond] at hmembers
    have hnot : ¬ Replaces next path := fun hrep => hnot (hreplaces.mpr hrep)
    rw [hmerged]
    rcases hfirst with hfirst | ⟨hfirst, hvalue⟩
    · rw [hfirst, h.kept hnot hmembers]
    · rw [hfirst, hvalue, merge_replaces (.inl fun _ h => by cases h)]
      exact valueAt_eq_none hnot hmembers

/-- **Merging, at every path.** -/
theorem merge_at {a b : Value} (hb : Document b) (path : List String) :
    MergedAt a b (merge a b) path := by
  induction path generalizing a b with
  | nil =>
    cases b with
    | object members =>
      cases a with
      | object old => exact mergedAt_root hb
      | _ => exact mergedAt_replaced (.inl fun ⟨_, h⟩ => by cases h) []
    | _ =>
      rw [merge_replaces (.inr fun _ h => by cases h)]
      exact mergedAt_replaced (.inr fun ⟨_, h⟩ => by cases h) []
  | cons key path ih =>
    cases b with
    | object members =>
      cases a with
      | object old =>
        cases hnext : members.lookup key with
        | none => exact mergedAt_unmentioned hb hnext
        | some next => exact mergedAt_under hb hnext (ih (hb.lookup hnext))
      | _ => exact mergedAt_replaced (.inl fun ⟨_, h⟩ => by cases h) _
    | _ =>
      rw [merge_replaces (.inr fun _ h => by cases h)]
      exact mergedAt_replaced (.inr fun ⟨_, h⟩ => by cases h) _

/-- A `null` replaces the object that was there, and what it said is gone. -/
theorem merge_at_null :
    let a : Value := .object [("level", .bool false), ("top", .object [("success", .bool true)])]
    let b : Value := .object [("top", .null)]
    valueAt (merge a b) ["top", "success"] = none ∧ valueAt (merge a b) ["top"] = some .null ∧
      valueAt (merge a b) ["level"] = some (.bool false) := by
  intro a b
  have hb : Document b := .object (by decide) (List.forall_mem_singleton.mpr .null)
  have hreplaces (path : List String) (h : ["top"] <+: path) : Replaces b path :=
    ⟨["top"], .null, h, rfl, fun ⟨_, h⟩ => by cases h⟩
  have hlevel : ¬ Replaces b ["level"] := by
    rw [replaces_cons]
    rintro ⟨next, hnext, -⟩
    cases hnext
  refine ⟨?_, ?_, ?_⟩
  · exact (merge_at hb ["top", "success"]).replaced (hreplaces _ ⟨["success"], rfl⟩)
  · exact (merge_at hb ["top"]).replaced (hreplaces _ List.prefix_rfl)
  · exact (merge_at hb ["level"]).kept hlevel fun members h => by cases h

end CommonDataLayer.DbShrinkerPostgres
