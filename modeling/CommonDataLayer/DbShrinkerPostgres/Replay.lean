import CommonDataLayer.DbShrinkerPostgres.Main

/-! # Replaying merged documents

Merging a sequence of documents once more, in the same order, changes nothing.

* `foldl_merge_const`: from a document on that is no object, what was there before is forgotten.
* `lookup_foldl`: in a sequence of objects, each name is merged by itself, from the members of that
  name, which are smaller documents.
* `names_foldl`: the second time no name is new, so the order of the names stays as it is.
-/
namespace CommonDataLayer.DbShrinkerPostgres
set_option autoImplicit false

def members : Value → List (String × Value)
  | .object members => members
  | _ => []

def names (value : Value) : List String := (members value).map (·.1)

def IsObject (value : Value) : Prop := ∃ members, value = .object members

/-- What the documents say under a name, in their order. -/
def valuesOf (name : String) (bs : List Value) : List Value :=
  bs.filterMap fun b => (members b).lookup name

variable {a b : Value} {bs : List Value} {name : String}

/-! ## The names of an object -/

theorem perm_insertMember (key : String) (value : Value) (list : List (String × Value)) :
    (insertMember key value list).Perm ((key, value) :: list) := by
  induction list with
  | nil => exact List.Perm.refl _
  | cons member list ih =>
    rw [insertMember]
    split
    · exact List.Perm.refl _
    · exact (ih.cons member).trans (List.Perm.swap (key, value) member list)

theorem names_replaceMember (key : String) (value : Value) (list : List (String × Value)) :
    (replaceMember key value list).map (·.1) = list.map (·.1) := by
  induction list with
  | nil => rfl
  | cons member list ih =>
    rw [replaceMember]
    split
    · next hkey => simp [hkey]
    · simp [ih]

theorem names_entry {key : String} {f : Value → Value} {list : List (String × Value)}
    (h : key ∈ list.map (·.1)) : (entry key f list).map (·.1) = list.map (·.1) := by
  unfold entry
  split
  · exact names_replaceMember _ _ list
  · next hnone => exact absurd hnone (mem_memberNames.mp h)

theorem nodup_entry {key : String} {f : Value → Value} {list : List (String × Value)}
    (h : (list.map (·.1)).Nodup) : ((entry key f list).map (·.1)).Nodup := by
  by_cases hkey : key ∈ list.map (·.1)
  · rw [names_entry hkey]
    exact h
  · have hnone : list.lookup key = none := lookup_eq_none hkey
    unfold entry
    rw [hnone]
    have hperm := (perm_insertMember key (f .null) list).map (·.1)
    rw [hperm.nodup_iff]
    exact List.nodup_cons.mpr ⟨hkey, h⟩

theorem names_mergeMembers {list list' : List (String × Value)}
    (h : ∀ key ∈ list'.map (·.1), key ∈ list.map (·.1)) :
    (mergeMembers list list').map (·.1) = list.map (·.1) := by
  induction list' generalizing list with
  | nil => rw [mergeMembers]
  | cons member list' ih =>
    rw [List.map_cons, List.forall_mem_cons] at h
    have hentry := names_entry (f := fun old => merge old member.2) h.1
    rw [mergeMembers, ih (by rw [hentry]; exact h.2), hentry]

theorem nodup_mergeMembers {list list' : List (String × Value)} (h : (list.map (·.1)).Nodup) :
    ((mergeMembers list list').map (·.1)).Nodup := by
  induction list' generalizing list with
  | nil => rw [mergeMembers]; exact h
  | cons member list' ih => rw [mergeMembers]; exact ih (nodup_entry h)

/-- Objects with the same names in the same order. -/
theorem eq_of_lookup {list list' : List (String × Value)} (hnames : list.map (·.1) = list'.map (·.1))
    (hnodup : (list.map (·.1)).Nodup) (h : ∀ name, list.lookup name = list'.lookup name) :
    list = list' := by
  refine List.ext_getElem? fun i => ?_
  have hkey : (list[i]?).map (·.1) = (list'[i]?).map (·.1) := by
    rw [← List.getElem?_map, ← List.getElem?_map, hnames]
  cases hi : list[i]? with
  | none => simpa [hi, eq_comm] using hkey
  | some member =>
    obtain ⟨member', hi'⟩ : ∃ member', list'[i]? = some member' := by
      cases hi' : list'[i]? <;> simp [hi, hi'] at hkey ⊢
    have hname : member.1 = member'.1 := by simpa [hi, hi'] using hkey
    have hlookup := lookup_of_mem hnodup (List.mem_of_getElem? hi)
    have hlookup' := lookup_of_mem (hnames ▸ hnodup) (List.mem_of_getElem? hi')
    rw [h, hname, hlookup', Option.some.injEq] at hlookup
    rw [hi', Option.some.injEq]
    exact Prod.ext hname hlookup.symm

/-! ## One document -/

theorem Document.member (hb : Document b) {value : Value} (h : (members b).lookup name = some value) :
    Document value ∧ sizeOf value < sizeOf b := by
  cases hb with
  | @object list hnames documents =>
    obtain ⟨before, after, hlist, -⟩ := List.lookup_eq_some_iff.mp h
    have hmem : (name, value) ∈ list := by
      have hsplit : list = before ++ (name, value) :: after := hlist
      simp [hsplit]
    have hlt := List.sizeOf_lt_of_mem hmem
    simp only [Prod.mk.sizeOf_spec] at hlt
    refine ⟨documents _ hmem, ?_⟩
    simp only [Value.object.sizeOf_spec]
    omega
  | _ => cases h

theorem Document.nodup_names (hb : Document b) : (names b).Nodup := by
  cases hb with
  | object hnames documents => exact hnames
  | _ => exact List.nodup_nil

theorem lookup_merge (hb : Document b) (hobject : IsObject b) : (members (merge a b)).lookup name =
    match (members b).lookup name with
    | some value => some (merge (((members a).lookup name).getD .null) value)
    | none => (members a).lookup name := by
  obtain ⟨list, rfl⟩ := hobject
  by_cases ha : IsObject a
  · obtain ⟨old, rfl⟩ := ha
    rw [merge]
    exact lookup_mergeMembers hb.nodup_names
  · have hnil : members a = [] := by
      cases a with
      | object old => exact absurd ⟨old, rfl⟩ ha
      | _ => rfl
    have hnull (value : Value) : merge .null value = value := merge_replaces (Or.inl fun _ h => by cases h)
    rw [merge_replaces (Or.inl (not_exists.mp ha)), hnil]
    cases (members (.object list)).lookup name with
    | none => rfl
    | some value => exact congrArg some (hnull value).symm

theorem isObject_merge (hobject : IsObject b) : IsObject (merge a b) := by
  obtain ⟨list, rfl⟩ := hobject
  cases a with
  | object old => exact ⟨mergeMembers old list, by rw [merge]⟩
  | _ => exact ⟨list, merge_replaces (Or.inl fun _ h => by cases h)⟩

theorem nodup_names_merge (hb : Document b) (ha : (names a).Nodup) : (names (merge a b)).Nodup := by
  by_cases h : (∃ list, a = .object list) ∧ IsObject b
  · obtain ⟨⟨old, rfl⟩, list, rfl⟩ := h
    rw [merge]
    exact nodup_mergeMembers ha
  · rw [merge_replaces]
    · exact hb.nodup_names
    · by_cases hold : ∃ list, a = .object list
      · exact Or.inr fun list hlist => h ⟨hold, list, hlist⟩
      · exact Or.inl (not_exists.mp hold)

/-! ## A sequence of documents -/

/-- A document that is no object takes the place of everything before it. -/
theorem foldl_merge_const (hb : b ∈ bs) (hscalar : ¬ IsObject b) (a a' : Value) :
    bs.foldl merge a = bs.foldl merge a' := by
  induction bs generalizing a a' with
  | nil => cases hb
  | cons first bs ih =>
    rw [List.foldl_cons, List.foldl_cons]
    rcases List.mem_cons.mp hb with rfl | hb
    · have hreplaces (old : Value) : merge old b = b := merge_replaces (Or.inr (not_exists.mp hscalar))
      rw [hreplaces, hreplaces]
    · exact ih hb _ _

theorem isObject_foldl (hne : bs ≠ []) (hobjects : ∀ b ∈ bs, IsObject b) (a : Value) :
    IsObject (bs.foldl merge a) := by
  induction bs using List.reverseRecOn with
  | nil => exact absurd rfl hne
  | append_singleton bs b ih =>
    rw [List.foldl_concat]
    exact isObject_merge (hobjects b (by simp))

theorem nodup_names_foldl (hbs : ∀ b ∈ bs, Document b) (ha : (names a).Nodup) :
    (names (bs.foldl merge a)).Nodup := by
  induction bs generalizing a with
  | nil => exact ha
  | cons b bs ih =>
    rw [List.forall_mem_cons] at hbs
    exact ih hbs.2 (nodup_names_merge hbs.1 ha)

/-- Each name is merged by itself. -/
theorem lookup_foldl (hbs : ∀ b ∈ bs, Document b) (hobjects : ∀ b ∈ bs, IsObject b) (a : Value) :
    (members (bs.foldl merge a)).lookup name = if valuesOf name bs = [] then (members a).lookup name
      else some ((valuesOf name bs).foldl merge (((members a).lookup name).getD .null)) := by
  induction bs generalizing a with
  | nil => simp [valuesOf]
  | cons b bs ih =>
    rw [List.forall_mem_cons] at hbs hobjects
    rw [List.foldl_cons, ih hbs.2 hobjects.2, lookup_merge hbs.1 hobjects.1]
    cases hvalue : (members b).lookup name with
    | none =>
      have hvalues : valuesOf name (b :: bs) = valuesOf name bs := List.filterMap_cons_none hvalue
      rw [hvalues]
    | some value =>
      have hvalues : valuesOf name (b :: bs) = value :: valuesOf name bs := by simp [valuesOf, hvalue]
      rw [hvalues]
      by_cases hrest : valuesOf name bs = [] <;> simp [hrest]

theorem names_foldl (hobjects : ∀ b ∈ bs, IsObject b)
    (hknown : ∀ b ∈ bs, ∀ key ∈ names b, key ∈ names a) (ha : IsObject a) :
    names (bs.foldl merge a) = names a := by
  induction bs generalizing a with
  | nil => rfl
  | cons b bs ih =>
    rw [List.forall_mem_cons] at hobjects hknown
    obtain ⟨⟨list, rfl⟩, hobjects⟩ := hobjects
    obtain ⟨old, rfl⟩ := ha
    have hmerge : names (merge (.object old) (.object list)) = names (.object old) := by
      rw [merge]
      exact names_mergeMembers hknown.1
    rw [List.foldl_cons, ih hobjects (by rw [hmerge]; exact hknown.2) (isObject_merge ⟨list, rfl⟩),
      hmerge]

/-- After the sequence, all its names are known. -/
theorem names_known (hbs : ∀ b ∈ bs, Document b) (hobjects : ∀ b ∈ bs, IsObject b) (a : Value) :
    ∀ b ∈ bs, ∀ key ∈ names b, key ∈ names (bs.foldl merge a) := by
  intro b hb key hkey
  rw [names, mem_memberNames] at hkey ⊢
  obtain ⟨value, hvalue⟩ := Option.ne_none_iff_exists'.mp hkey
  have hmem : value ∈ valuesOf key bs := List.mem_filterMap.mpr ⟨b, hb, hvalue⟩
  rw [lookup_foldl hbs hobjects, if_neg (List.ne_nil_of_mem hmem)]
  exact Option.some_ne_none _

/-- What the sequence starts from under a name. -/
def oldValue (a : Value) (name : String) : Value := ((members a).lookup name).getD .null

/-- Under a name the second round changes nothing if that holds of the documents there. -/
theorem lookup_foldl_twice (hbs : ∀ b ∈ bs, Document b) (hobjects : ∀ b ∈ bs, IsObject b)
    (hvalues : (valuesOf name bs).foldl merge ((valuesOf name bs).foldl merge (oldValue a name)) =
      (valuesOf name bs).foldl merge (oldValue a name)) :
    (members (bs.foldl merge (bs.foldl merge a))).lookup name =
      (members (bs.foldl merge a)).lookup name := by
  rw [lookup_foldl hbs hobjects (bs.foldl merge a)]
  by_cases hnil : valuesOf name bs = []
  · rw [if_pos hnil]
  · rw [if_neg hnil, lookup_foldl hbs hobjects a, if_neg hnil, Option.getD_some, Option.some.injEq]
    exact hvalues

theorem foldl_merge_objects (ha : Document a) (hbs : ∀ b ∈ bs, Document b)
    (hobjects : ∀ b ∈ bs, IsObject b) (hne : bs ≠ [])
    (hvalues : ∀ name, (valuesOf name bs).foldl merge ((valuesOf name bs).foldl merge (oldValue a name)) =
      (valuesOf name bs).foldl merge (oldValue a name)) :
    bs.foldl merge (bs.foldl merge a) = bs.foldl merge a := by
  have hlookup (name : String) := lookup_foldl_twice hbs hobjects (hvalues name)
  have hnodup := nodup_names_foldl hbs ha.nodup_names
  have honce := isObject_foldl hne hobjects a
  have hnames := names_foldl hobjects (names_known hbs hobjects a) honce
  have hnodup' : (names (bs.foldl merge (bs.foldl merge a))).Nodup := by rw [hnames]; exact hnodup
  obtain ⟨twice, htwice⟩ := isObject_foldl hne hobjects (bs.foldl merge a)
  obtain ⟨once, honce⟩ := honce
  rw [htwice, honce] at hnames hlookup
  rw [htwice] at hnodup'
  have hsame : twice = once := eq_of_lookup hnames hnodup' hlookup
  rw [htwice, honce, hsame]

/-- By induction on a bound for the sizes of the documents merged; those under a name are
smaller. -/
theorem foldl_merge_of_lt (n : ℕ) : ∀ (a : Value) (bs : List Value), Document a →
    (∀ b ∈ bs, Document b) → (∀ b ∈ bs, sizeOf b < n) →
    bs.foldl merge (bs.foldl merge a) = bs.foldl merge a := by
  induction n with
  | zero =>
    intro a bs _ _ hsize
    have hnil : bs = [] := List.eq_nil_iff_forall_not_mem.mpr fun b hb => Nat.not_lt_zero _ (hsize b hb)
    rw [hnil]
    rfl
  | succ n ih =>
    intro a bs ha hbs hsize
    by_cases hscalar : ∃ b ∈ bs, ¬ IsObject b
    · obtain ⟨b, hb, hb'⟩ := hscalar
      exact foldl_merge_const hb hb' _ _
    · have hobjects : ∀ b ∈ bs, IsObject b := by simpa using hscalar
      by_cases hnil : bs = []
      · rw [hnil]
        rfl
      · refine foldl_merge_objects ha hbs hobjects hnil fun name => ?_
        have hold : Document (oldValue a name) := by
          unfold oldValue
          cases hvalue : (members a).lookup name with
          | none => exact .null
          | some value => exact (ha.member hvalue).1
        have hsmaller : ∀ value ∈ valuesOf name bs, Document value ∧ sizeOf value < n := by
          intro value hvalue
          obtain ⟨b, hb, hmember⟩ := List.mem_filterMap.mp hvalue
          have hlt := hsize b hb
          obtain ⟨hdocument, hless⟩ := (hbs b hb).member hmember
          exact ⟨hdocument, by omega⟩
        exact ih _ _ hold (fun value h => (hsmaller value h).1) fun value h => (hsmaller value h).2

/-- **Merging a sequence of documents once more changes nothing.** -/
theorem foldl_merge_twice {a : Value} (ha : Document a) {bs : List Value} (hbs : ∀ b ∈ bs, Document b) :
    bs.foldl merge (bs.foldl merge a) = bs.foldl merge a :=
  foldl_merge_of_lt (sizeOf bs) a bs ha hbs fun _ hb => List.sizeOf_lt_of_mem hb

/-- A scalar in the middle, over which a later document puts an object again. -/
theorem foldl_merge_twice_scalar :
    let bs : List Value := [.object [("a", .object [("b", .null)])], .object [("a", .bool true)],
      .object [("a", .object [("c", .null)])]]
    bs.foldl merge (bs.foldl merge .null) = bs.foldl merge .null := by
  intro bs
  have hnull : Document (.object [("b", .null)]) := .object (by decide) (by simpa using .null)
  have hnull' : Document (.object [("c", .null)]) := .object (by decide) (by simpa using .null)
  refine foldl_merge_twice .null fun b hb => ?_
  simp only [bs, List.mem_cons, List.not_mem_nil, or_false] at hb
  obtain rfl | rfl | rfl := hb
  · exact .object (by decide) (by simpa using hnull)
  · exact .object (by decide) (by simpa using .bool true)
  · exact .object (by decide) (by simpa using hnull')

end CommonDataLayer.DbShrinkerPostgres
