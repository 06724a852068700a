import Ctorium.Lib.Assoc
import Ctorium.ThreadLocal

/-!
# The index of the thread-local instances

`TLData` finds the instances of a thread in a map from registries to entries, and an entry holds
an array of pointers indexed by the descriptors and the order in which they were stored. The entry
that was found last is cached: lookups of the same registry use the pointer to it and do not
search the map. The entries are the nodes of an `unordered_map`. A node stays at its address until
it is erased, and its address may be that of a later node.

The lists of `Thread.entries` are what the index is for. Here are the map, the arrays and the
cache behind them.

* `Represents`: the index holds such lists, and a cached pointer is the one of the map;
* `Represents.perform`: every call keeps this, and no pointer to an erased node is used;
* `findInstance_eq_stored`: along every run the index answers as the calls describe;
* `Represents.thread_storeInstance` and the lemmas after it: with the lists of a `Thread`, the
  index does what the `Thread` does.
-/

namespace Ctorium.ThreadLocal

open Function

/-! ## The index and its calls -/

/-- `RegistryEntries`. -/
structure RegistryEntries where
  /-- The pointers, indexed by the descriptors; `none` is the null pointer. -/
  instances : List (Option Addr) := []
  order : List DescriptorId := []
  deriving DecidableEq, Repr

namespace RegistryEntries

/-- `index < values.size() ? values[index] : nullptr`. -/
def value (entry : RegistryEntries) (descId : DescriptorId) : Option Addr :=
  entry.instances[descId]?.join

/-- The array is extended by null pointers if it does not reach the descriptor. -/
def reach (entry : RegistryEntries) (descId : DescriptorId) : RegistryEntries :=
  if descId ≥ entry.instances.length then
    { entry with
      instances :=
        entry.instances ++ List.replicate (descId + 1 - entry.instances.length) none }
  else entry

/-- The entry holds the pairs `l`, in their order. -/
structure Holds (entry : RegistryEntries) (l : List (DescriptorId × Addr)) : Prop where
  order : entry.order = l.map Prod.fst
  value : ∀ d, entry.value d = l.lookup d

variable {entry : RegistryEntries} {l : List (DescriptorId × Addr)} {d : DescriptorId}

theorem Holds.empty : Holds {} [] := ⟨rfl, fun _ => rfl⟩

theorem lt_length_reach : d < (entry.reach d).instances.length := by
  rw [reach]
  split_ifs with h
  · rw [List.length_append, List.length_replicate, Nat.add_sub_of_le (Nat.le_succ_of_le h)]
    exact Nat.lt_succ_self d
  · exact Nat.lt_of_not_le h

/-- The array is extended by null pointers only. -/
theorem Holds.reach (h : entry.Holds l) (d : DescriptorId) : (entry.reach d).Holds l := by
  rw [RegistryEntries.reach]
  split_ifs with hd
  · refine ⟨h.order, fun e => ?_⟩
    rw [← h.value e, RegistryEntries.value, RegistryEntries.value]
    by_cases he : e < entry.instances.length
    · rw [List.getElem?_append_left he]
    · rw [List.getElem?_append_right (Nat.le_of_not_lt he), List.getElem?_replicate,
        List.getElem?_eq_none (Nat.le_of_not_lt he)]
      split_ifs <;> rfl
  · exact h

/-- A pointer is stored inside the array. -/
theorem Holds.store (h : entry.Holds l) (hd : d < entry.instances.length) (ptr : Addr) :
    Holds { order := if (entry.value d).isNone then entry.order ++ [d] else entry.order
            instances := entry.instances.set d (some ptr) } (Assoc.store l d ptr) where
  order := by
    rw [Assoc.keys_store, ← h.order, ← h.value]
    cases entry.value d <;> rfl
  value e := by
    rw [Assoc.lookup_store, ← h.value, RegistryEntries.value, RegistryEntries.value]
    by_cases he : e = d
    · simp [he, hd]
    · rw [if_neg he, List.getElem?_set_ne (Ne.symm he), ← RegistryEntries.value]

/-- A pointer is set to null and its descriptor is dropped from the order. -/
theorem Holds.erase (h : entry.Holds l) (d : DescriptorId) :
    Holds { instances := entry.instances.set d none, order := entry.order.filter (· ≠ d) }
      (l.filter (·.1 ≠ d)) where
  order := by
    rw [h.order, List.filter_map]
    rfl
  value e := by
    rw [Assoc.lookup_filter, ← h.value, RegistryEntries.value, RegistryEntries.value]
    by_cases he : e = d
    · subst he
      by_cases hlt : e < entry.instances.length
      · simp [hlt]
      · simp [Nat.le_of_not_lt hlt]
    · simp [he, Ne.symm he]

end RegistryEntries

/-- `InstanceIndex::Iterator`. -/
structure Iterator where
  key : RegistryId × DescriptorId := (0, 0)
  second : Option Addr := none
  present : Bool := false
  deriving DecidableEq, Repr

/-- `InstanceIndex`: the map, with the addresses of its nodes, and the cached entry. -/
structure InstanceIndex where
  registries : RegistryId → Option Addr := fun _ => none
  /-- The nodes in memory, by their addresses. -/
  nodes : Addr → Option RegistryEntries := fun _ => none
  cachedRegistryId : RegistryId := 0
  cachedRegistryEntries : Option Addr := none

namespace InstanceIndex

variable (t : InstanceIndex)

def cache (registryId : RegistryId) (a : Addr) : InstanceIndex :=
  { t with cachedRegistryId := registryId, cachedRegistryEntries := some a }

def setNode (a : Addr) (entry : RegistryEntries) : InstanceIndex :=
  { t with nodes := update t.nodes a (some entry) }

/-- `InstanceIndex::findInstance`, with the cache that it leaves. It has no result if it uses a
    pointer to an erased node. -/
def findInstance (registryId : RegistryId) (descId : DescriptorId) :
    Option (Option Addr × InstanceIndex) :=
  if t.cachedRegistryId = registryId ∧ t.cachedRegistryEntries ≠ none then
    (t.cachedRegistryEntries.bind t.nodes).map fun entry => (entry.value descId, t)
  else match t.registries registryId with
    | none => some (none, t)
    | some a => (t.nodes a).map fun entry => (entry.value descId, t.cache registryId a)

/-- A node is constructed for a registry. -/
def insertNode (registryId : RegistryId) (node : Addr) : InstanceIndex :=
  { t with
    registries := update t.registries registryId (some node)
    nodes := update t.nodes node (some {}) }

/-- The node of a registry is destroyed. -/
def eraseNode (registryId : RegistryId) (a : Addr) : InstanceIndex :=
  { t with
    registries := update t.registries registryId none
    nodes := update t.nodes a none }

/-- `registries[registryId]`: a new node is constructed at the address `node` if there is none. -/
def access (registryId : RegistryId) (node : Addr) : Addr × InstanceIndex :=
  match t.registries registryId with
  | some a => (a, t)
  | none => (node, t.insertNode registryId node)

/-- `InstanceIndex::storeInstance`, with `firstStore`. -/
def storeInstance (registryId : RegistryId) (descId : DescriptorId) (ptr : Addr) (node : Addr) :
    Option (Bool × InstanceIndex) :=
  let (a, t) := t.access registryId node
  let t := t.cache registryId a
  (t.nodes a).map fun entry =>
    let entry := entry.reach descId
    ((entry.value descId).isNone, t.setNode a
      { order := if (entry.value descId).isNone then entry.order ++ [descId] else entry.order
        instances := entry.instances.set descId (some ptr) })

/-- `InstanceIndex::find`. -/
def find (key : RegistryId × DescriptorId) : Option (Iterator × InstanceIndex) :=
  (t.findInstance key.1 key.2).map fun (ptr, t) =>
    (if ptr.isSome then { key := key, second := ptr, present := true } else {}, t)

/-- `InstanceIndex::erase`. -/
def erase (it : Iterator) : Option InstanceIndex :=
  if it.present = false then some t
  else match t.registries it.key.1 with
    | none => some t
    | some a =>
      let t := t.cache it.key.1 a
      (t.nodes a).map fun entry => t.setNode a
        { instances := entry.instances.set it.key.2 none
          order := entry.order.filter (· ≠ it.key.2) }

/-- The cache is cleared if it is of the registry. -/
def dropCache (registryId : RegistryId) : InstanceIndex :=
  if t.cachedRegistryId = registryId then
    { t with cachedRegistryId := 0, cachedRegistryEntries := none }
  else t

/-- `InstanceIndex::eraseRegistry`. -/
def eraseRegistry (registryId : RegistryId) : InstanceIndex :=
  let t := t.dropCache registryId
  match t.registries registryId with
  | none => t
  | some a => t.eraseNode registryId a

/-- The entries of a registry. -/
def entriesOf (registryId : RegistryId) : Option RegistryEntries :=
  (t.registries registryId).bind t.nodes

/-- `TLData::hasEntriesFor`. -/
def hasEntriesFor (registryId : RegistryId) : Bool :=
  match t.entriesOf registryId with
  | none => false
  | some entry => !entry.order.isEmpty

/-- `TLData::collectFor`, with what it leaves in `out`. -/
def collectFor (registryId : RegistryId) (out : List (DescriptorId × Addr)) :
    Option (List (DescriptorId × Addr) × InstanceIndex) :=
  match t.registries registryId with
  | none => some (out, t)
  | some a => (t.nodes a).map fun entry =>
    (out ++ entry.order.filterMap fun descId => (entry.value descId).map (descId, ·),
      t.eraseRegistry registryId)

/-- The calls; a call that stores names the address where a new node would be. -/
inductive Call
  | storeInstance (registryId : RegistryId) (descId : DescriptorId) (ptr : Addr) (node : Addr)
  | findInstance (registryId : RegistryId) (descId : DescriptorId)
  | erase (it : Iterator)
  | collectFor (registryId : RegistryId)
  deriving DecidableEq, Repr

/-- A call is made. -/
def perform : Call → Option InstanceIndex
  | .storeInstance registryId descId ptr node =>
    (t.storeInstance registryId descId ptr node).map Prod.snd
  | .findInstance registryId descId => (t.findInstance registryId descId).map Prod.snd
  | .erase it => t.erase it
  | .collectFor registryId => (t.collectFor registryId []).map Prod.snd

/-- The address of a new node is not that of another one. -/
def Meets : Call → Prop
  | .storeInstance registryId _ _ node => t.registries registryId = none → t.nodes node = none
  | _ => True

instance : (c : Call) → Decidable (t.Meets c)
  | .storeInstance _ _ _ _ => inferInstanceAs (Decidable (_ → _))
  | .findInstance _ _ | .erase _ | .collectFor _ => inferInstanceAs (Decidable True)

/-- The runs of the index, from an empty one. -/
def machine : Machine InstanceIndex Call where
  Init t := t = {}
  step := perform

/-! ## What the calls describe -/

/-- The pointers that the index holds after a call. -/
def Call.stored (m : RegistryId → DescriptorId → Option Addr) :
    Call → RegistryId → DescriptorId → Option Addr
  | .storeInstance r d ptr _ => update m r (update (m r) d (some ptr))
  | .findInstance _ _ => m
  | .erase it => if it.present then update m it.key.1 (update (m it.key.1) it.key.2 none) else m
  | .collectFor r => update m r fun _ => none

/-- The pointer stored last and not since erased or collected. -/
def stored (cs : List Call) : RegistryId → DescriptorId → Option Addr :=
  cs.foldl Call.stored fun _ _ => none

/-- The pairs that the index holds after a call, each registry's in the order of the first stores
    since the descriptors were absent. -/
def Call.live (l : RegistryId → List (DescriptorId × Addr)) :
    Call → RegistryId → List (DescriptorId × Addr)
  | .storeInstance r d ptr _ => update l r (Assoc.store (l r) d ptr)
  | .findInstance _ _ => l
  | .erase it => if it.present then update l it.key.1 ((l it.key.1).filter (·.1 ≠ it.key.2)) else l
  | .collectFor r => update l r []

def live (cs : List Call) : RegistryId → List (DescriptorId × Addr) :=
  cs.foldl Call.live fun _ => []

/-! ## What the index holds -/

variable {t t' : InstanceIndex} {l : RegistryId → List (DescriptorId × Addr)} {c : Call}

/-- The index holds the pairs `l`, and the cached pointer is that of the map. -/
structure Represents (t : InstanceIndex) (l : RegistryId → List (DescriptorId × Addr)) : Prop where
  node : ∀ r a, t.registries r = some a → ∃ entry, t.nodes a = some entry ∧ entry.Holds (l r)
  absent : ∀ r, t.registries r = none → l r = []
  injective : ∀ r r' a, t.registries r = some a → t.registries r' = some a → r = r'
  cached : ∀ a, t.cachedRegistryEntries = some a → t.registries t.cachedRegistryId = some a
  nodup : ∀ r, ((l r).map Prod.fst).Nodup

theorem Represents.empty : Represents {} fun _ => [] where
  node := fun _ _ h => nomatch h
  absent := fun _ _ => rfl
  injective := fun _ _ _ h => nomatch h
  cached := fun _ h => nomatch h
  nodup := fun _ => List.nodup_nil

/-- A registry of the map is cached. -/
theorem Represents.cache (h : t.Represents l) {r : RegistryId} {a : Addr}
    (ha : t.registries r = some a) : (t.cache r a).Represents l :=
  { h with cached := fun _ hb => Option.some.inj hb ▸ ha }

/-- The node of a registry takes other pairs. -/
theorem Represents.setNode (h : t.Represents l) {r : RegistryId} {a : Addr}
    {entry : RegistryEntries} {pairs : List (DescriptorId × Addr)}
    (ha : t.registries r = some a) (hentry : entry.Holds pairs)
    (hnodup : (pairs.map Prod.fst).Nodup) :
    (t.setNode a entry).Represents (update l r pairs) where
  node r' a' ha' := by
    by_cases hr : r' = r
    · subst hr
      obtain rfl := Option.some.inj (ha.symm.trans ha')
      exact ⟨entry, update_self .., by rwa [update_self]⟩
    · -- Another registry has another node.
      have hne : a' ≠ a := fun he => hr (h.injective r' r a (he ▸ ha') ha)
      obtain ⟨old, hold, hl⟩ := h.node r' a' ha'
      exact ⟨old, (update_of_ne hne ..).trans hold, by rwa [update_of_ne hr]⟩
  absent r' hr' := by
    have hne : r' ≠ r := fun he => nomatch (he ▸ hr').symm.trans ha
    rw [update_of_ne hne]
    exact h.absent r' hr'
  injective := h.injective
  cached := h.cached
  nodup r' := by
    by_cases hr : r' = r
    · rwa [hr, update_self]
    · rw [update_of_ne hr]
      exact h.nodup r'

/-- The map does not reach a node that is not in memory. -/
theorem Represents.registries_ne (h : t.Represents l) {node : Addr} (hnode : t.nodes node = none)
    (r : RegistryId) : t.registries r ≠ some node := by
  intro hr
  obtain ⟨entry, hentry, -⟩ := h.node r node hr
  rw [hnode] at hentry
  cases hentry

theorem insertNode_registries (r : RegistryId) (node : Addr) :
    (t.insertNode r node).registries = update t.registries r (some node) := rfl

theorem eraseNode_registries (r : RegistryId) (a : Addr) :
    (t.eraseNode r a).registries = update t.registries r none := rfl

/-- A registry without entries gets an empty node. -/
theorem Represents.insertNode (h : t.Represents l) {r : RegistryId} {node : Addr}
    (hr : t.registries r = none) (hnode : t.nodes node = none) :
    (t.insertNode r node).Represents l where
  node r' a ha := by
    -- The registry of the new node, or one that has its node already.
    by_cases he : r' = r
    · subst he
      rw [insertNode_registries, update_self] at ha
      obtain rfl := Option.some.inj ha
      exact ⟨{}, update_self .., by rw [h.absent r' hr]; exact .empty⟩
    · rw [insertNode_registries, update_of_ne he] at ha
      have hne : a ≠ node := fun hn => h.registries_ne hnode r' (hn ▸ ha)
      obtain ⟨entry, hentry, hl⟩ := h.node r' a ha
      exact ⟨entry, (update_of_ne hne ..).trans hentry, hl⟩
  absent r' hr' := by
    have he : r' ≠ r := fun he => by
      rw [he, insertNode_registries, update_self] at hr'
      cases hr'
    rw [insertNode_registries, update_of_ne he] at hr'
    exact h.absent r' hr'
  injective r₁ r₂ a h₁ h₂ := by
    simp only [insertNode_registries, update_apply] at h₁ h₂
    split_ifs at h₁ h₂ with e₁ e₂ e₂
    · exact e₁.trans e₂.symm
    · exact absurd (h₂.trans h₁.symm) (h.registries_ne hnode r₂)
    · exact absurd (h₁.trans h₂.symm) (h.registries_ne hnode r₁)
    · exact h.injective r₁ r₂ a h₁ h₂
  cached a ha := by
    have hold := h.cached a ha
    -- The cache refers to a registry that has a node, so not to this one.
    have he : t.cachedRegistryId ≠ r := fun he => by
      rw [he, hr] at hold
      cases hold
    exact (update_of_ne he ..).trans hold
  nodup := h.nodup

/-- `registries[registryId]` finds the node or makes an empty one. -/
theorem Represents.access (h : t.Represents l) {r : RegistryId} {node : Addr}
    (hnode : t.registries r = none → t.nodes node = none) :
    (t.access r node).2.Represents l ∧
      (t.access r node).2.registries r = some (t.access r node).1 := by
  rw [InstanceIndex.access]
  cases hr : t.registries r with
  | some a => exact ⟨h, hr⟩
  | none => exact ⟨h.insertNode hr (hnode hr), update_self ..⟩

/-- The node of a registry that is not cached is destroyed. -/
theorem Represents.eraseNode (h : t.Represents l) {r : RegistryId} {a : Addr}
    (ha : t.registries r = some a)
    (hcached : t.cachedRegistryEntries = none ∨ t.cachedRegistryId ≠ r) :
    (t.eraseNode r a).Represents (update l r []) where
  node r' a' ha' := by
    have he : r' ≠ r := fun he => by
      rw [he, eraseNode_registries, update_self] at ha'
      cases ha'
    rw [eraseNode_registries, update_of_ne he] at ha'
    have hne : a' ≠ a := fun hn => he (h.injective r' r a (hn ▸ ha') ha)
    obtain ⟨entry, hentry, hl⟩ := h.node r' a' ha'
    exact ⟨entry, (update_of_ne hne ..).trans hentry, by rwa [update_of_ne he]⟩
  absent r' hr' := by
    by_cases he : r' = r
    · rw [he, update_self]
    · rw [eraseNode_registries, update_of_ne he] at hr'
      rw [update_of_ne he]
      exact h.absent r' hr'
  injective r₁ r₂ a' h₁ h₂ := by
    simp only [eraseNode_registries, update_apply] at h₁ h₂
    split_ifs at h₁ h₂ with e₁ e₂
    exact h.injective r₁ r₂ a' h₁ h₂
  cached a' ha' := by
    have hold := h.cached a' ha'
    -- The entry that is cached belongs to another registry, or none is cached.
    have he : t.cachedRegistryId ≠ r := hcached.resolve_left fun hnone => by
      cases hnone.symm.trans ha'
    exact (update_of_ne he ..).trans hold
  nodup r' := by
    by_cases he : r' = r
    · rw [he, update_self]
      exact List.nodup_nil
    · rw [update_of_ne he]
      exact h.nodup r'

/-- A lookup finds the pointer of the pairs, whether its registry is cached or not. -/
theorem Represents.findInstance (h : t.Represents l) (r : RegistryId) (d : DescriptorId) :
    ∃ t', t.findInstance r d = some ((l r).lookup d, t') ∧ t'.Represents l ∧
      t'.registries = t.registries ∧ t'.nodes = t.nodes := by
  rw [InstanceIndex.findInstance]
  split_ifs with hcached
  · obtain ⟨rfl, hne⟩ := hcached
    obtain ⟨a, ha⟩ := Option.ne_none_iff_exists'.mp hne
    obtain ⟨entry, hentry, hl⟩ := h.node _ a (h.cached a ha)
    refine ⟨t, ?_, h, rfl, rfl⟩
    rw [ha, Option.bind_some, hentry, Option.map_some, hl.value]
  · cases hr : t.registries r with
    | none => exact ⟨t, by rw [h.absent r hr]; rfl, h, rfl, rfl⟩
    | some a =>
      obtain ⟨entry, hentry, hl⟩ := h.node r a hr
      refine ⟨t.cache r a, ?_, h.cache hr, rfl, rfl⟩
      simp only [hentry, Option.map_some, hl.value]

theorem Represents.storeInstance (h : t.Represents l) {r : RegistryId} {node : Addr}
    (hnode : t.registries r = none → t.nodes node = none) (d : DescriptorId) (ptr : Addr) :
    ∃ first t', t.storeInstance r d ptr node = some (first, t') ∧
      t'.Represents (update l r (Assoc.store (l r) d ptr)) := by
  obtain ⟨haccess, ha⟩ := h.access hnode
  obtain ⟨entry, hentry, hl⟩ := haccess.node r _ ha
  have hstore := (hl.reach d).store RegistryEntries.lt_length_reach ptr
  refine ⟨((entry.reach d).value d).isNone, _, ?_,
    (haccess.cache ha).setNode ha hstore (Assoc.nodup_store (h.nodup r) d ptr)⟩
  exact congrArg (Option.map _) hentry

theorem Represents.erase (h : t.Represents l) (it : Iterator) :
    ∃ t', t.erase it = some t' ∧ t'.Represents (Call.live l (.erase it)) := by
  rw [InstanceIndex.erase, Call.live]
  cases hpresent : it.present with
  | false => exact ⟨t, rfl, h⟩
  | true =>
    rw [if_neg (by decide), if_pos rfl]
    cases hr : t.registries it.key.1 with
    | none =>
      refine ⟨t, rfl, ?_⟩
      rw [h.absent _ hr, List.filter_nil, ← h.absent _ hr, update_eq_self]
      exact h
    | some a =>
      obtain ⟨entry, hentry, hl⟩ := h.node _ a hr
      refine ⟨_, congrArg (Option.map _) hentry, (h.cache hr).setNode hr (hl.erase it.key.2) ?_⟩
      exact (h.nodup _).sublist (List.filter_sublist.map _)

/-- The cache is cleared before the node is destroyed. -/
theorem Represents.dropCache (h : t.Represents l) (r : RegistryId) :
    (t.dropCache r).Represents l ∧ (t.dropCache r).registries = t.registries ∧
      (t.dropCache r).nodes = t.nodes ∧
      ((t.dropCache r).cachedRegistryEntries = none ∨ (t.dropCache r).cachedRegistryId ≠ r) := by
  rw [InstanceIndex.dropCache]
  split_ifs with hr
  · exact ⟨{ h with cached := fun _ hb => nomatch hb }, rfl, rfl, .inl rfl⟩
  · exact ⟨h, rfl, rfl, .inr hr⟩

/-- The entries of a registry are erased, and those of the other ones stay. -/
theorem Represents.eraseRegistry (h : t.Represents l) (r : RegistryId) :
    (t.eraseRegistry r).Represents (update l r []) ∧
      ∀ r' ≠ r, (t.eraseRegistry r).entriesOf r' = t.entriesOf r' := by
  obtain ⟨hd, hregistries, hnodes, hcached⟩ := h.dropCache r
  rw [InstanceIndex.eraseRegistry]
  have hentries : ∀ r', (t.dropCache r).entriesOf r' = t.entriesOf r' := fun r' => by
    rw [entriesOf, hregistries, hnodes, entriesOf]
  cases hr : (t.dropCache r).registries r with
  | none =>
    refine ⟨?_, fun r' _ => hentries r'⟩
    rw [← hd.absent r hr, update_eq_self]
    exact hd
  | some a =>
    refine ⟨hd.eraseNode hr hcached, fun r' hr' => ?_⟩
    rw [← hentries, entriesOf, entriesOf]
    have hreg : ((t.dropCache r).eraseNode r a).registries r' = (t.dropCache r).registries r' :=
      update_of_ne hr' ..
    rw [hreg]
    cases ha' : (t.dropCache r).registries r' with
    | none => rfl
    | some a' =>
      have hne : a' ≠ a := fun hn => hr' (hd.injective r' r a (hn ▸ ha') hr)
      exact update_of_ne hne ..

/-- The pairs of a registry are appended in their order. -/
theorem Represents.collectFor (h : t.Represents l) (r : RegistryId)
    (out : List (DescriptorId × Addr)) :
    ∃ t', t.collectFor r out = some (out ++ l r, t') ∧ t'.Represents (update l r []) ∧
      ∀ r' ≠ r, t'.entriesOf r' = t.entriesOf r' := by
  rw [InstanceIndex.collectFor]
  cases hr : t.registries r with
  | none =>
    refine ⟨t, ?_, ?_, fun _ _ => rfl⟩
    · rw [h.absent r hr, List.append_nil]
    · rw [← h.absent r hr, update_eq_self]
      exact h
  | some a =>
    obtain ⟨entry, hentry, hl⟩ := h.node r a hr
    have hpairs : (entry.order.filterMap fun d => (entry.value d).map (d, ·)) = l r := by
      rw [hl.order, funext hl.value]
      exact Assoc.filterMap_lookup (h.nodup r)
    refine ⟨t.eraseRegistry r, ?_, h.eraseRegistry r⟩
    simp only [hentry, Option.map_some, hpairs]

/-- There are entries for a registry if there is a pair. -/
theorem Represents.hasEntriesFor (h : t.Represents l) (r : RegistryId) :
    t.hasEntriesFor r = !(l r).isEmpty := by
  rw [InstanceIndex.hasEntriesFor, entriesOf]
  cases hr : t.registries r with
  | none => rw [h.absent r hr]; rfl
  | some a =>
    obtain ⟨entry, hentry, hl⟩ := h.node r a hr
    simp only [Option.bind_some, hentry, hl.order, List.isEmpty_map]

/-- The step lemma: a call uses no pointer to an erased node, and the index then holds the pairs
    that the call describes. -/
theorem Represents.perform (h : t.Represents l) (hc : t.Meets c) :
    ∃ t', t.perform c = some t' ∧ t'.Represents (c.live l) := by
  cases c with
  | storeInstance r d ptr node =>
    obtain ⟨first, t', ht', h'⟩ := h.storeInstance hc d ptr
    exact ⟨t', congrArg (Option.map _) ht', h'⟩
  | findInstance r d =>
    obtain ⟨t', ht', h', -⟩ := h.findInstance r d
    exact ⟨t', congrArg (Option.map _) ht', h'⟩
  | erase it => exact h.erase it
  | collectFor r =>
    obtain ⟨t', ht', h', -⟩ := h.collectFor r []
    exact ⟨t', congrArg (Option.map _) ht', h'⟩

/-- The run lemma. -/
theorem Represents.run (h : t.Represents l) {cs : List Call} (hcs : machine.Along Meets t cs) :
    ∃ t', machine.run t cs = some t' ∧ t'.Represents (cs.foldl Call.live l) := by
  induction cs generalizing t l with
  | nil => exact ⟨t, rfl, h⟩
  | cons c cs ih =>
    obtain ⟨t₁, ht₁, h₁⟩ := h.perform hcs.1
    obtain ⟨t', hr, h'⟩ := ih h₁ (hcs.tail ht₁)
    exact ⟨t', Option.bind_eq_some_iff.mpr ⟨t₁, ht₁, hr⟩, h'⟩

/-! ## The pairs and the pointers -/

/-- A lookup in the pairs after a call finds the pointer after the call. -/
theorem Call.lookup_live {m : RegistryId → DescriptorId → Option Addr}
    (h : ∀ r d, (l r).lookup d = m r d) (c : Call) (r : RegistryId) (d : DescriptorId) :
    (c.live l r).lookup d = c.stored m r d := by
  have hfun : ∀ r, m r = fun d => (l r).lookup d := fun r => funext fun d => (h r d).symm
  cases c with
  | findInstance => exact h r d
  | storeInstance r' d' ptr node =>
    by_cases hr : r = r'
    · subst hr
      simp only [live, stored, update_self, Assoc.lookup_store, update_apply, hfun]
    · simp only [live, stored, update_of_ne hr, h]
  | erase it =>
    simp only [live, stored]
    split_ifs
    · by_cases hr : r = it.key.1
      · subst hr
        simp only [update_self, Assoc.lookup_filter, update_apply, hfun]
      · simp only [update_of_ne hr, h]
    · exact h r d
  | collectFor r' =>
    by_cases hr : r = r'
    · subst hr
      simp only [live, stored, update_self, List.lookup_nil]
    · simp only [live, stored, update_of_ne hr, h]

theorem lookup_foldl_live {m : RegistryId → DescriptorId → Option Addr}
    (h : ∀ r d, (l r).lookup d = m r d) (cs : List Call) (r : RegistryId) (d : DescriptorId) :
    (cs.foldl Call.live l r).lookup d = cs.foldl Call.stored m r d := by
  induction cs generalizing l m with
  | nil => exact h r d
  | cons c cs ih => exact ih (c.lookup_live h)

/-- The pairs hold the pointers that were stored last. -/
theorem lookup_live (cs : List Call) (r : RegistryId) (d : DescriptorId) :
    (live cs r).lookup d = stored cs r d :=
  lookup_foldl_live (fun _ _ => rfl) cs r d

/-- Along every sequence of calls no pointer to an erased node is used, whatever addresses new
    nodes have. A lookup returns the pointer that was stored last and not since erased or
    collected, or null; there are entries for a registry if there is such a pointer; and a
    collection appends the pairs of its registry, each once and in the order of their first
    stores since they were absent, and leaves the entries of the other registries unchanged. -/
theorem findInstance_eq_stored (cs : List Call) (hcs : machine.Along Meets {} cs) :
    ∃ t, machine.run {} cs = some t ∧
      (∀ r d, ∃ t', t.findInstance r d = some (stored cs r d, t')) ∧
      (∀ r, t.hasEntriesFor r = true ↔ ∃ d, stored cs r d ≠ none) ∧
      ∀ r out, ((live cs r).map Prod.fst).Nodup ∧
        (∀ d ptr, (d, ptr) ∈ live cs r ↔ stored cs r d = some ptr) ∧
        ∃ t', t.collectFor r out = some (out ++ live cs r, t') ∧
          ∀ r' ≠ r, t'.entriesOf r' = t.entriesOf r' := by
  obtain ⟨t, hr, h⟩ := Represents.empty.run hcs
  have hmem : ∀ r d ptr, (d, ptr) ∈ live cs r ↔ stored cs r d = some ptr := fun r d ptr => by
    rw [← lookup_live]
    exact Assoc.mem_iff_lookup (h.nodup r)
  refine ⟨t, hr, fun r d => ?_, fun r => ?_, fun r out => ⟨h.nodup r, hmem r, ?_⟩⟩
  · obtain ⟨t', ht', -⟩ := h.findInstance r d
    exact ⟨t', lookup_live cs r d ▸ ht'⟩
  · rw [h.hasEntriesFor, Bool.not_eq_true', List.isEmpty_eq_false_iff_exists_mem]
    constructor
    · rintro ⟨⟨d, ptr⟩, hd⟩
      exact ⟨d, Option.ne_none_iff_exists'.mpr ⟨ptr, (hmem r d ptr).mp hd⟩⟩
    · rintro ⟨d, hd⟩
      obtain ⟨ptr, hptr⟩ := Option.ne_none_iff_exists'.mp hd
      exact ⟨(d, ptr), (hmem r d ptr).mpr hptr⟩
  · obtain ⟨t', ht', -, hother⟩ := h.collectFor r out
    exact ⟨t', ht', hother⟩

/-- The cached registry is collected, and the node of another one takes the address of the
    node. -/
theorem findInstance_eq_stored_reused : ∃ t,
    machine.run {} [.storeInstance 1 0 7 100, .collectFor 1, .storeInstance 2 0 8 100] = some t ∧
      (∀ r d, ∃ t', t.findInstance r d =
        some (stored [.storeInstance 1 0 7 100, .collectFor 1, .storeInstance 2 0 8 100] r d,
          t')) ∧
      (∀ r, t.hasEntriesFor r = true ↔ ∃ d,
        stored [.storeInstance 1 0 7 100, .collectFor 1, .storeInstance 2 0 8 100] r d ≠ none) ∧
      ∀ r out,
        ((live [.storeInstance 1 0 7 100, .collectFor 1, .storeInstance 2 0 8 100] r).map
          Prod.fst).Nodup ∧
        (∀ d ptr,
          (d, ptr) ∈ live [.storeInstance 1 0 7 100, .collectFor 1, .storeInstance 2 0 8 100] r ↔
            stored [.storeInstance 1 0 7 100, .collectFor 1, .storeInstance 2 0 8 100] r d =
              some ptr) ∧
        ∃ t', t.collectFor r out =
            some (out ++
              live [.storeInstance 1 0 7 100, .collectFor 1, .storeInstance 2 0 8 100] r, t') ∧
          ∀ r' ≠ r, t'.entriesOf r' = t.entriesOf r' :=
  findInstance_eq_stored [.storeInstance 1 0 7 100, .collectFor 1, .storeInstance 2 0 8 100]
    (by decide)

/-! ## The lists of a thread -/

/-- The index of a thread that stores what its lists store holds the lists again. -/
theorem Represents.thread_storeInstance {th : Thread} (h : t.Represents th.entries)
    {r : RegistryId} {node : Addr} (hnode : t.registries r = none → t.nodes node = none)
    (d : DescriptorId) (ptr : Addr) :
    ∃ first t', t.storeInstance r d ptr node = some (first, t') ∧
      t'.Represents (th.storeInstance r d ptr).entries :=
  h.storeInstance hnode d ptr

theorem Represents.thread_findInstance {th : Thread} (h : t.Represents th.entries)
    (r : RegistryId) (d : DescriptorId) :
    ∃ t', t.findInstance r d = some (th.findInstance r d, t') ∧ t'.Represents th.entries := by
  obtain ⟨t', ht', h', -⟩ := h.findInstance r d
  exact ⟨t', ht', h'⟩

theorem Represents.thread_hasEntriesFor {th : Thread} (h : t.Represents th.entries)
    (r : RegistryId) : t.hasEntriesFor r = th.hasEntriesFor r :=
  h.hasEntriesFor r

/-- A collection takes the list of its registry, which the thread erases. -/
theorem Represents.thread_collectFor {th : Thread} (h : t.Represents th.entries) (r : RegistryId) :
    ∃ t', t.collectFor r [] = some (th.entries r, t') ∧
      t'.Represents (th.eraseRegistry r).entries := by
  obtain ⟨t', ht', h', -⟩ := h.collectFor r []
  exact ⟨t', ht', h'⟩

end InstanceIndex
end Ctorium.ThreadLocal
