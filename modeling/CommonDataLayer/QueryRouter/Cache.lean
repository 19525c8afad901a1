import CommonDataLayer.SchemaRegistry.Rpc

/-! # The schema cache of the query router

`SchemaRegistryCache::get_schema_info` as a program: it looks into the cache, and otherwise makes two
requests to the schema registry, whose handlers run at the other end, and puts the pair into the cache.
The lock of the cache is held for one `get_mut` or `insert` at a time.
-/
namespace CommonDataLayer.QueryRouter
open Interaction
open SchemaRegistry (Crates Rpc SchemaRegistryImpl.getSchemaQueryAddress
  SchemaRegistryImpl.getSchemaType SchemaType Status)
set_option autoImplicit false

abbrev SchemaInfo : Type := String × SchemaType

/-! ## The crate `lru_cache` -/

/-- A cache whose entries can be evicted at any time. -/
structure LruCache (K V : Type) where
  Contents : Type
  new : ℕ → Contents
  getMut : K → Contents → Option V × Contents
  insert : K → V → Contents → Contents
  getMut_new : ∀ capacity k, (getMut k (new capacity)).1 = none
  getMut_getMut : ∀ k k' v c, (getMut k (getMut k' c).2).1 = some v → (getMut k c).1 = some v
  getMut_insert : ∀ k k' v v' c, (getMut k (insert k' v' c)).1 = some v →
    (k = k' ∧ v = v') ∨ (getMut k c).1 = some v

/-- The cache answers `k` with `v`. -/
def LruCache.Holds {K V : Type} (lru : LruCache K V) (c : lru.Contents) (k : K) (v : V) : Prop :=
  (lru.getMut k c).1 = some v

/-! ## The programs -/

inductive Call where
  | cacheGetMut (schemaId : Uuid)
  | cacheInsert (schemaId : Uuid) (info : SchemaInfo)
  | connect (addr : String)
  /-- A request on its way to the registry, or a response on its way back. -/
  | deliver
  /-- A call of the datastore by a handler of the registry. -/
  | registry (call : SchemaRegistry.Call)

abbrev Answer : Call → Type
  | .cacheGetMut _ => Option SchemaInfo
  | .cacheInsert _ _ => Unit
  | .connect _ => Except String Unit
  | .deliver => Except Status Unit
  | .registry call => SchemaRegistry.Answer call

inductive ClientError where
  | connectionError (service : String) (source : String)
  | queryError (service : String) (source : Status)
  deriving DecidableEq, Repr

/-- `Error`, its variant that the cache returns. -/
inductive Error where
  | clientError (source : ClientError)
  deriving DecidableEq, Repr

abbrev Task (α : Type) : Type := ExceptT Error (Program Answer) α

/-- A request: what its handler returns, value or status, is sent back. -/
def request {α : Type} (handler : Rpc α) : Task α :=
  ExceptT.mk <| (Program.perform Call.deliver).bind fun sent =>
    match sent with
    | .error err => .ret (.error (queryError err))
    | .ok () => (handler.run.embed Call.registry).bind fun response =>
      (Program.perform Call.deliver).bind fun received =>
        .ret ((received.bind fun _ => response).mapError queryError)
where
  queryError (err : Status) : Error := .clientError (.queryError "schema registry" err)

def connect (addr : String) : Task Unit :=
  ExceptT.mk <| (Program.perform (Call.connect addr)).bind fun r =>
    .ret (r.mapError fun err => .clientError (.connectionError "schema registry" err))

namespace SchemaRegistryCache

def getMut (schemaId : Uuid) : Task (Option SchemaInfo) :=
  ExceptT.mk <| (Program.perform (Call.cacheGetMut schemaId)).bind fun info => .ret (.ok info)

def insert (schemaId : Uuid) (info : SchemaInfo) : Task Unit :=
  ExceptT.mk <| (Program.perform (Call.cacheInsert schemaId info)).bind fun _ => .ret (.ok ())

def getSchemaInfo (crates : Crates) (schemaRegistryAddr : String) (schemaId : Uuid) :
    Task SchemaInfo := do
  match ← getMut schemaId with
  | some cachedData => return cachedData
  | none =>
    connect schemaRegistryAddr
    let address ← request (SchemaRegistryImpl.getSchemaQueryAddress crates schemaId.toText)
    let schemaType ← request (SchemaRegistryImpl.getSchemaType crates schemaId.toText)
    -- `schema_type()` of the response takes an unknown number for the first type.
    let result := (address, (SchemaType.ofI32 schemaType).getD .documentStorage)
    insert schemaId result
    return result

end SchemaRegistryCache

/-! ## A cache in memory -/

/-- The entries, the last one used first. -/
structure RecentlyUsed (K V : Type) where
  capacity : ℕ
  entries : List (K × V)

namespace RecentlyUsed
variable {K V : Type} [DecidableEq K]

def getMut (k : K) (c : RecentlyUsed K V) : Option V × RecentlyUsed K V :=
  match c.entries.lookup k with
  | some v => (some v, { c with entries := (k, v) :: c.entries.filter fun entry => entry.1 ≠ k })
  | none => (none, c)

def insert (k : K) (v : V) (c : RecentlyUsed K V) : RecentlyUsed K V :=
  { c with entries := ((k, v) :: c.entries.filter fun entry => entry.1 ≠ k).take c.capacity }

variable {k k' : K} {v v' : V} {c : RecentlyUsed K V}

theorem getMut_fst : (getMut k c).1 = c.entries.lookup k := by
  unfold getMut
  cases c.entries.lookup k <;> rfl

theorem lookup_filter_ne {entries : List (K × V)} (h : k ≠ k') :
    (entries.filter fun entry => entry.1 ≠ k').lookup k = entries.lookup k := by
  induction entries with
  | nil => rfl
  | cons entry entries ih =>
    by_cases hentry : entry.1 = k'
    · rw [List.filter_cons_of_neg (by simpa using hentry), ih, List.lookup_cons, hentry,
        beq_eq_false_iff_ne.mpr h]
    · rw [List.filter_cons_of_pos (by simpa using hentry), List.lookup_cons, List.lookup_cons, ih]

/-- An entry that is moved to the front or added there. -/
theorem lookup_front {entries : List (K × V)} (h : ((k', v') :: entries.filter fun entry =>
    entry.1 ≠ k').lookup k = some v) : (k = k' ∧ v = v') ∨ entries.lookup k = some v := by
  by_cases hk : k = k'
  · subst hk
    rw [List.lookup_cons_self, Option.some.injEq] at h
    exact Or.inl ⟨rfl, h.symm⟩
  · rw [List.lookup_cons, beq_eq_false_iff_ne.mpr hk] at h
    exact Or.inr ((lookup_filter_ne hk).symm.trans h)

theorem lookup_getMut (h : (getMut k' c).2.entries.lookup k = some v) :
    c.entries.lookup k = some v := by
  unfold getMut at h
  split at h
  · rename_i held hheld
    rcases lookup_front h with ⟨rfl, rfl⟩ | h
    · exact hheld
    · exact h
  · exact h

theorem lookup_insert (h : (insert k' v' c).entries.lookup k = some v) :
    (k = k' ∧ v = v') ∨ c.entries.lookup k = some v :=
  lookup_front ((List.take_prefix _ _).lookup_eq_some h)

end RecentlyUsed

def recentlyUsed (K V : Type) [DecidableEq K] : LruCache K V where
  Contents := RecentlyUsed K V
  new capacity := { capacity := capacity, entries := [] }
  getMut := RecentlyUsed.getMut
  insert := RecentlyUsed.insert
  getMut_new _ _ := rfl
  getMut_getMut k k' v c h := by
    rw [RecentlyUsed.getMut_fst] at h ⊢
    exact RecentlyUsed.lookup_getMut h
  getMut_insert k k' v v' c h := by
    rw [RecentlyUsed.getMut_fst] at h ⊢
    exact RecentlyUsed.lookup_insert h

end CommonDataLayer.QueryRouter
