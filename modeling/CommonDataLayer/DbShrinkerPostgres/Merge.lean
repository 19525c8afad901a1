import Mathlib.Data.List.Nodup
import CommonDataLayer.Wire.Values

/-! # Merging documents

`merge` puts the members of one object into another one, recursively; anything else is replaced.

`merge_absorb`: what was merged last is in the result, so merging it again changes nothing.

Objects are equal whatever the order of their members is; here they are kept in key order.
-/
namespace CommonDataLayer.DbShrinkerPostgres
set_option autoImplicit false

/-- A new member, in key order. -/
def insertMember (key : String) (value : Value) : List (String × Value) → List (String × Value)
  | [] => [(key, value)]
  | member :: rest =>
    if key < member.1 then (key, value) :: member :: rest
    else member :: insertMember key value rest

def replaceMember (key : String) (value : Value) : List (String × Value) → List (String × Value)
  | [] => []
  | member :: rest =>
    if key = member.1 then (key, value) :: rest else member :: replaceMember key value rest

/-- `map.entry(key).or_insert(Value::Null)`, with `f` applied to the value that is there then. -/
def entry (key : String) (f : Value → Value) (members : List (String × Value)) :
    List (String × Value) :=
  match members.lookup key with
  | some value => replaceMember key (f value) members
  | none => insertMember key (f .null) members

mutual

def merge : Value → Value → Value
  | .object a, .object b => .object (mergeMembers a b)
  | _, b => b

def mergeMembers (a : List (String × Value)) : List (String × Value) → List (String × Value)
  | [] => a
  | (key, value) :: b => mergeMembers (entry key (fun old => merge old value) a) b

end

/-- What `serde_json` holds: the names in an object are distinct. -/
inductive Document : Value → Prop where
  | null : Document .null
  | bool (b : Bool) : Document (.bool b)
  | number (n : Number) : Document (.number n)
  | string (text : String) : Document (.string text)
  | array {items : List Value} (documents : ∀ item ∈ items, Document item) : Document (.array items)
  | object {members : List (String × Value)} (names : (members.map (·.1)).Nodup)
      (documents : ∀ member ∈ members, Document member.2) : Document (.object members)

/-! ## Members -/

variable {a b : List (String × Value)} {key name : String} {f : Value → Value}

theorem lookup_member (member : String × Value) :
    (member :: a).lookup name = if name = member.1 then some member.2 else a.lookup name := by
  rw [List.lookup_cons]
  by_cases h : name = member.1
  · simp [h]
  · rw [if_neg h, beq_eq_false_iff_ne.mpr h]

theorem lookup_insertMember {value : Value} (h : a.lookup key = none) :
    (insertMember key value a).lookup name = if name = key then some value else a.lookup name := by
  induction a with
  | nil => exact lookup_member (key, value)
  | cons member a ih =>
    rw [lookup_member] at h
    have hne : key ≠ member.1 := fun heq => by
      rw [if_pos heq] at h
      cases h
    rw [if_neg hne] at h
    rw [insertMember]
    split
    · exact lookup_member (key, value)
    · rw [lookup_member, lookup_member, ih h]
      by_cases hname : name = member.1
      · rw [if_pos hname, if_pos hname, if_neg fun heq => hne (heq.symm.trans hname)]
      · rw [if_neg hname, if_neg hname]

theorem lookup_replaceMember {value : Value} (h : a.lookup key ≠ none) :
    (replaceMember key value a).lookup name = if name = key then some value else a.lookup name := by
  induction a with
  | nil => exact absurd rfl h
  | cons member a ih =>
    rw [lookup_member] at h
    rw [replaceMember, lookup_member]
    by_cases hkey : key = member.1
    · rw [if_pos hkey, lookup_member, hkey]
      split <;> rfl
    · rw [if_neg hkey] at h
      rw [if_neg hkey, lookup_member, ih h]
      by_cases hname : name = member.1
      · rw [if_pos hname, if_pos hname, if_neg fun heq => hkey (heq.symm.trans hname)]
      · rw [if_neg hname, if_neg hname]

theorem lookup_entry : (entry key f a).lookup name =
    if name = key then some (f ((a.lookup key).getD .null)) else a.lookup name := by
  unfold entry
  cases h : a.lookup key with
  | none => exact lookup_insertMember h
  | some value => exact lookup_replaceMember (h ▸ Option.some_ne_none value)

theorem replaceMember_eq_self {value : Value} (h : a.lookup key = some value) :
    replaceMember key value a = a := by
  induction a with
  | nil => rfl
  | cons member a ih =>
    rw [lookup_member] at h
    rw [replaceMember]
    by_cases hkey : key = member.1
    · rw [if_pos hkey, Option.some.injEq] at h
      rw [if_pos hkey, ← h, hkey]
    · rw [if_neg hkey] at h
      rw [if_neg hkey, ih h]

/-- Nothing changes where `f` keeps the value that is there. -/
theorem entry_eq_self {value : Value} (h : a.lookup key = some value) (hf : f value = value) :
    entry key f a = a := by
  unfold entry
  rw [h]
  dsimp only
  rw [hf, replaceMember_eq_self h]

theorem lookup_eq_none (h : name ∉ b.map (·.1)) : b.lookup name = none := by
  refine List.lookup_eq_none_iff.mpr fun member hmember => ?_
  simp only [bne_iff_ne]
  exact fun heq => h (heq ▸ List.mem_map_of_mem hmember)

/-- A name is in an object exactly if something is found under it. -/
theorem mem_memberNames : name ∈ b.map (·.1) ↔ b.lookup name ≠ none := by
  constructor
  · intro hmem hnone
    obtain ⟨member, hmember, rfl⟩ := List.mem_map.mp hmem
    have hne := List.lookup_eq_none_iff.mp hnone member hmember
    simp at hne
  · intro hsome
    by_contra hnot
    exact hsome (lookup_eq_none hnot)

theorem lookup_mergeMembers (hb : (b.map (·.1)).Nodup) : (mergeMembers a b).lookup name =
    match b.lookup name with
    | some value => some (merge ((a.lookup name).getD .null) value)
    | none => a.lookup name := by
  induction b generalizing a with
  | nil => rw [mergeMembers]; rfl
  | cons member b ih =>
    obtain ⟨key, value⟩ := member
    rw [List.map_cons, List.nodup_cons] at hb
    rw [mergeMembers, ih hb.2, lookup_member, lookup_entry]
    by_cases hname : name = key
    · rw [if_pos hname, if_pos hname, lookup_eq_none (hname ▸ hb.1), hname]
    · rw [if_neg hname, if_neg hname]

theorem lookup_of_mem (hb : (b.map (·.1)).Nodup) {member : String × Value} (h : member ∈ b) :
    b.lookup member.1 = some member.2 := by
  induction b with
  | nil => cases h
  | cons first b ih =>
    rw [List.map_cons, List.nodup_cons] at hb
    rw [lookup_member]
    rcases List.mem_cons.mp h with rfl | h
    · exact if_pos rfl
    · have hne : member.1 ≠ first.1 := fun heq => hb.1 (heq ▸ List.mem_map_of_mem h)
      rw [if_neg hne, ih hb.2 h]

/-- Members that are all there. -/
theorem mergeMembers_eq_self
    (h : ∀ member ∈ b, ∃ value, a.lookup member.1 = some value ∧ merge value member.2 = value) :
    mergeMembers a b = a := by
  induction b with
  | nil => rw [mergeMembers]
  | cons member b ih =>
    obtain ⟨value, hlookup, hvalue⟩ := h member List.mem_cons_self
    rw [mergeMembers, entry_eq_self hlookup hvalue]
    exact ih fun other hother => h other (List.mem_cons_of_mem member hother)

/-! ## Absorption -/

theorem merge_replaces {old value : Value}
    (h : (∀ members, old ≠ .object members) ∨ ∀ members, value ≠ .object members) :
    merge old value = value := by
  unfold merge
  split
  · rename_i a b
    exact h.elim (fun h => absurd rfl (h a)) fun h => absurd rfl (h b)
  · rfl

/-- What was merged last is in the result. -/
theorem merge_absorb {value : Value} (hvalue : Document value) (old : Value) :
    merge (merge old value) value = merge old value := by
  induction hvalue generalizing old with
  | object names documents ih =>
    rename_i members
    have hnull (member : String × Value) : merge .null member.2 = member.2 :=
      merge_replaces (Or.inl fun _ h => by cases h)
    have hself : mergeMembers members members = members := by
      refine mergeMembers_eq_self fun member hmember => ⟨_, lookup_of_mem names hmember, ?_⟩
      have htwice := ih member hmember .null
      rw [hnull member] at htwice
      exact htwice
    by_cases hobject : ∃ a, old = .object a
    · obtain ⟨a, rfl⟩ := hobject
      rw [merge, merge, mergeMembers_eq_self]
      intro member hmember
      rw [lookup_mergeMembers names, lookup_of_mem names hmember]
      exact ⟨_, rfl, ih member hmember _⟩
    · rw [merge_replaces (Or.inl (not_exists.mp hobject)), merge, hself]
  | _ => rw [merge_replaces (Or.inr fun _ h => by cases h),
      merge_replaces (Or.inr fun _ h => by cases h)]

theorem merge_self {value : Value} (hvalue : Document value) : merge value value = value := by
  have hnull : merge .null value = value := merge_replaces (Or.inl fun _ h => by cases h)
  have htwice := merge_absorb hvalue .null
  rw [hnull] at htwice
  exact htwice

end CommonDataLayer.DbShrinkerPostgres
