import Ctorium.Basic
import Ctorium.Freelist
import Mathlib.Data.List.Perm.Basic

/-!
# The capacity of the prototype store

The slots of a `PrototypeStore` lie in chunks, and the pointers to the chunks in an array of fixed
size. `allocate` takes a slot of the free list or the next one after all slots that were ever
allocated, and reaches the chunk of a slot through the array. In which chunk a slot would lie is
compared with the size of the array by an assertion only; the configured limit
`CTORIUM_PROTOTYPE_MAX_SLOTS`, where there is one, is checked before anything changes.

`Freelist` interleaves the operations on the free list within the array. Here the calls run one
after another and the array has an end; `Prototype.Chunks` connects this store with that of
`Prototype` and of `Unwinding`, and `Freelist.Sequential` with the free list.

* `Inv`: the slots below the count are free, under construction or live, each once, and their
  chunks are there.
* `allocations_safe_iff`: without a configured limit, a run has only calls that stay inside the
  array exactly if every allocation finds a slot that is free or fits into the array.
* `allocations_safe_of_maxSlots`: with a limit that fits into the array, an allocation that finds
  no slot fails and changes nothing.
-/

namespace Ctorium.Capacity

open Function
open Freelist (SlotId Head kChunkSize kMaxChunks)

/-! ## The store -/

/-- A chunk of slots, by their offsets. -/
structure Chunk where
  /-- The memory of the object, `none` for null, and its descriptor. -/
  metas : ℕ → Option Addr × DescriptorId := fun _ => (none, 0)
  /-- 32-bit counters. -/
  refcounts : ℕ → ℕ := fun _ => 0
  nextFree : ℕ → Option SlotId := fun _ => some 0
  generation : ℕ → UInt32 := fun _ => 0

structure Store where
  /-- The array of chunk pointers; it has the indices below `kMaxChunks`. -/
  chunks : ℕ → Option Chunk := fun _ => none
  slotCount : ℕ := 0
  freelistHead : Head := ⟨0, none⟩
  /-- A 32-bit counter. -/
  liveSlotCount : ℕ := 0

/-- How a call ends. -/
inductive Outcome
  | returned (slot : SlotId)
  | done
  | raised (failure : Failure)
  /-- The allocation of a chunk has thrown. -/
  | badAlloc
  /-- The call has used an element outside the array of chunk pointers, or a null pointer. -/
  | outOfBounds
  deriving DecidableEq, Repr

namespace Store

/-- The chunk of a slot, if its index is inside the array and it is published. -/
def chunkOf (s : Store) (id : SlotId) : Option Chunk :=
  if id / kChunkSize < kMaxChunks then s.chunks (id / kChunkSize) else none

def setChunk (s : Store) (id : SlotId) (chunk : Chunk) : Store :=
  { s with chunks := update s.chunks (id / kChunkSize) (some chunk) }

/-- An access to the chunk of a slot. -/
def access (s : Store) (id : SlotId) (f : Chunk → Outcome × Store) : Outcome × Store :=
  match s.chunkOf id with
  | none => (.outOfBounds, s)
  | some chunk => f chunk

/-- `metas[offset] = {mem, descId}`. -/
def setMeta (s : Store) (id : SlotId) (chunk : Chunk) (mem : Option Addr) (descId : DescriptorId) :
    Store :=
  s.setChunk id { chunk with metas := update chunk.metas (id % kChunkSize) (mem, descId) }

/-- `PrototypeStore::allocate`, with `CTORIUM_PROTOTYPE_MAX_SLOTS` if it is configured; `fails`
    tells whether the allocation of a chunk would throw. -/
def allocate (maxSlots : Option ℕ) (s : Store) (descId : DescriptorId) (mem : Addr)
    (fails : Bool) : Outcome × Store :=
  match s.freelistHead.slot with
  | some slot => s.access slot fun chunk =>
    (.returned slot, { s.setMeta slot chunk (some mem) descId with
      freelistHead := ⟨0, chunk.nextFree (slot % kChunkSize)⟩ })
  | none =>
    if maxSlots.any (s.slotCount ≥ ·) then
      (.raised (.resolutionError ("PrototypeStore: CTORIUM_PROTOTYPE_MAX_SLOTS limit reached; " ++
        "cannot allocate a new prototype slot.")), s)
    else
      let id := s.slotCount
      let s := { s with slotCount := id + 1 }
      if id / kChunkSize < kMaxChunks then
        match s.chunks (id / kChunkSize) with
        | some chunk => (.returned id, s.setMeta id chunk (some mem) descId)
        | none =>
          if fails then (.badAlloc, s) else (.returned id, s.setMeta id {} (some mem) descId)
      else (.outOfBounds, s)

/-- `PrototypeStore::activate`. -/
def activate (s : Store) (id : SlotId) : Outcome × Store :=
  s.access id fun chunk =>
    (.done, { s.setChunk id { chunk with
        refcounts := update chunk.refcounts (id % kChunkSize) 1 } with
      liveSlotCount := (s.liveSlotCount + 1) % 2 ^ 32 })

/-- `pushTreiberFreelist`, after the memory of the slot has been cleared. -/
def push (s : Store) (id : SlotId) (chunk : Chunk) (generation : UInt32) : Store :=
  { s.setChunk id { chunk with
      metas := update chunk.metas (id % kChunkSize) (none, (chunk.metas (id % kChunkSize)).2)
      generation := update chunk.generation (id % kChunkSize) generation
      nextFree := update chunk.nextFree (id % kChunkSize) s.freelistHead.slot } with
    freelistHead := ⟨generation, some id⟩ }

/-- `PrototypeStore::reclaim`: the generation stays. -/
def reclaim (s : Store) (id : SlotId) : Outcome × Store :=
  s.access id fun chunk => (.done, s.push id chunk (chunk.generation (id % kChunkSize)))

/-- `PrototypeStore::reclaimSlot`. -/
def reclaimSlot (s : Store) (id : SlotId) : Outcome × Store :=
  s.access id fun chunk =>
    (.done, { s.push id chunk (chunk.generation (id % kChunkSize) + 1) with
      liveSlotCount := (s.liveSlotCount + (2 ^ 32 - 1)) % 2 ^ 32 })

/-- `PrototypeStore::retain` and `releaseAcquire`, which add to the counter of a slot. -/
def count (s : Store) (id : SlotId) (n : ℕ) : Outcome × Store :=
  s.access id fun chunk =>
    (.done, s.setChunk id { chunk with
      refcounts := update chunk.refcounts (id % kChunkSize)
        ((chunk.refcounts (id % kChunkSize) + n) % 2 ^ 32) })

def retain (s : Store) (id : SlotId) : Outcome × Store := s.count id 1

/-- Whether the last reference is gone decides what the caller does next. -/
def releaseAcquire (s : Store) (id : SlotId) : Outcome × Store := s.count id (2 ^ 32 - 1)

end Store

/-! ## Runs -/

/-- The store with the slots that its callers hold. -/
structure State where
  store : Store := {}
  /-- Allocated, and neither activated nor reclaimed. -/
  building : List SlotId := []
  /-- Activated, and not reclaimed. -/
  live : List SlotId := []
  /-- The slots that calls have returned so far (history). -/
  issued : List SlotId := []

inductive Call
  | allocate (descId : DescriptorId) (mem : Addr) (fails : Bool)
  | activate (id : SlotId)
  | reclaim (id : SlotId)
  | retain (id : SlotId)
  | releaseAcquire (id : SlotId)
  | reclaimSlot (id : SlotId)
  deriving DecidableEq, Repr

namespace State

def setStore (s : State) (r : Outcome × Store) : Outcome × State := (r.1, { s with store := r.2 })

/-- The effect of a call. -/
def call (maxSlots : Option ℕ) (s : State) : Call → Outcome × State
  | .allocate descId mem fails =>
    let (outcome, store) := s.store.allocate maxSlots descId mem fails
    (outcome, match outcome with
      | .returned id =>
        { s with store := store, building := id :: s.building, issued := id :: s.issued }
      | _ => { s with store := store })
  | .activate id =>
    { s with building := s.building.erase id, live := id :: s.live }.setStore (s.store.activate id)
  | .reclaim id => { s with building := s.building.erase id }.setStore (s.store.reclaim id)
  | .retain id => s.setStore (s.store.retain id)
  | .releaseAcquire id => s.setStore (s.store.releaseAcquire id)
  | .reclaimSlot id => { s with live := s.live.erase id }.setStore (s.store.reclaimSlot id)

/-- A slot is activated or reclaimed by the caller that has allocated it, and given back once; the
    counter of a slot is used with any slot that was returned. -/
def Allowed (s : State) : Call → Prop
  | .allocate _ _ _ => True
  | .activate id | .reclaim id => id ∈ s.building
  | .retain id | .releaseAcquire id => id ∈ s.issued
  | .reclaimSlot id => id ∈ s.live

instance (s : State) : (c : Call) → Decidable (s.Allowed c)
  | .allocate _ _ _ => inferInstanceAs (Decidable True)
  | .activate _ | .reclaim _ | .retain _ | .releaseAcquire _ | .reclaimSlot _ =>
    inferInstanceAs (Decidable (_ ∈ _))

/-- An allocation returns a slot of a published chunk inside the array that no caller holds, or
    raises an error and changes nothing. -/
def Allocates (s : State) (outcome : Outcome) (s' : State) : Prop :=
  (∃ id, outcome = .returned id ∧ id / kChunkSize < kMaxChunks ∧
    (s'.store.chunks (id / kChunkSize)).isSome ∧ id ∉ s.building ∧ id ∉ s.live) ∨
  ∃ failure, outcome = .raised failure ∧ s' = s

/-- The call ends as it should. -/
def Ends (maxSlots : Option ℕ) (s : State) (c : Call) : Prop :=
  match c with
  | .allocate _ _ _ => s.Allocates (s.call maxSlots c).1 (s.call maxSlots c).2
  | _ => (s.call maxSlots c).1 = .done

/-- The call ends as it should, and every slot returned so far can be accessed after it. -/
def Safe (maxSlots : Option ℕ) (s : State) (c : Call) : Prop :=
  s.Ends maxSlots c ∧
    ∀ id ∈ (s.call maxSlots c).2.issued, ((s.call maxSlots c).2.store.chunkOf id).isSome

/-- The number of slots that callers hold. -/
def outstanding (s : State) : ℕ := (s.building ++ s.live).length

/-- A chunk that has to be allocated is allocated. -/
def ChunkThere (s : State) (fails : Bool) : Prop :=
  fails = true →
    s.store.freelistHead.slot.isSome ∨ (s.store.chunkOf s.store.slotCount).isSome

/-- Fewer slots are held than the chunks of the array have. -/
def Room (s : State) : Call → Prop
  | .allocate _ _ fails => s.outstanding < kChunkSize * kMaxChunks ∧ s.ChunkThere fails
  | _ => True

end State

/-- The runs of a store that is empty initially. -/
def machine (maxSlots : Option ℕ) : Machine State Call where
  Init s := s = {}
  step s c := if s.Allowed c then some (s.call maxSlots c).2 else none

/-! ## Chunks and successors -/

namespace Store

variable {s : Store} {id j : SlotId} {chunk chunk' : Chunk}

/-- The successor of a slot on the free list. -/
def nextFree (s : Store) (id : SlotId) : Option SlotId :=
  (s.chunkOf id).bind fun chunk => chunk.nextFree (id % kChunkSize)

theorem setChunk_chunks (s : Store) (id : SlotId) (chunk : Chunk) :
    (s.setChunk id chunk).chunks = update s.chunks (id / kChunkSize) (some chunk) := rfl

theorem chunkOf_of_isSome (h : (s.chunkOf id).isSome) :
    id / kChunkSize < kMaxChunks ∧ (s.chunks (id / kChunkSize)).isSome := by
  rw [chunkOf] at h
  split_ifs at h with hlt
  · exact ⟨hlt, h⟩
  · cases h

theorem lt_of_chunkOf (h : s.chunkOf id = some chunk) : id / kChunkSize < kMaxChunks :=
  (chunkOf_of_isSome (by rw [h]; rfl)).1

theorem chunkOf_setChunk (hid : id / kChunkSize < kMaxChunks) :
    (s.setChunk id chunk).chunkOf j =
      if j / kChunkSize = id / kChunkSize then some chunk else s.chunkOf j := by
  rw [chunkOf, setChunk_chunks, update_apply]
  by_cases hj : j / kChunkSize = id / kChunkSize
  · rw [if_pos hj, if_pos hj, if_pos (hj ▸ hid)]
  · rw [if_neg hj, if_neg hj]
    rfl

/-- No chunk is taken out of the array. -/
theorem isSome_chunkOf_setChunk (h : (s.chunkOf j).isSome) :
    ((s.setChunk id chunk).chunkOf j).isSome := by
  obtain ⟨hlt, hsome⟩ := chunkOf_of_isSome h
  rw [chunkOf, if_pos hlt, setChunk_chunks, update_apply]
  split_ifs
  · rfl
  · exact hsome

theorem eq_of_chunk_eq (hdiv : j / kChunkSize = id / kChunkSize)
    (hmod : j % kChunkSize = id % kChunkSize) : j = id := by
  rw [← Nat.div_add_mod j kChunkSize, hdiv, hmod, Nat.div_add_mod]

/-- The successors stay where a chunk keeps them. -/
theorem nextFree_setChunk (h : s.chunkOf id = some chunk)
    (hnext : chunk'.nextFree = chunk.nextFree) : (s.setChunk id chunk').nextFree = s.nextFree := by
  funext j
  rw [nextFree, chunkOf_setChunk (lt_of_chunkOf h), nextFree]
  split_ifs with hj
  · have hchunk : s.chunkOf j = some chunk := by
      rw [← h, chunkOf, chunkOf, hj]
    rw [hchunk, Option.bind_some, Option.bind_some, hnext]
  · rfl

/-- A push links the slot to the slot that was on top. -/
theorem nextFree_push (h : s.chunkOf id = some chunk) (g : UInt32) :
    (s.push id chunk g).nextFree = update s.nextFree id s.freelistHead.slot := by
  funext j
  have hpush : (s.push id chunk g).chunkOf j = _ := chunkOf_setChunk (lt_of_chunkOf h)
  rw [nextFree, hpush, update_apply]
  by_cases hj : j = id
  · subst hj
    rw [if_pos rfl, if_pos rfl, Option.bind_some]
    exact update_self ..
  · rw [if_neg hj, nextFree]
    split_ifs with hdiv
    · have hmod : j % kChunkSize ≠ id % kChunkSize := fun hmod => hj (eq_of_chunk_eq hdiv hmod)
      have hchunk : s.chunkOf j = some chunk := by
        rw [← h, chunkOf, chunkOf, hdiv]
      rw [hchunk, Option.bind_some, Option.bind_some]
      exact update_of_ne hmod ..
    · rfl

/-- Where the free list is empty and the next slot is inside the array, it is returned, from the
    chunk that is there or from a new one. -/
theorem allocate_of_none {m : Option ℕ} (descId : DescriptorId) (mem : Addr) (fails : Bool)
    (hslot : s.freelistHead.slot = none) (hany : m.any (s.slotCount ≥ ·) = false)
    (hbound : s.slotCount / kChunkSize < kMaxChunks)
    (hthere : fails = true → (s.chunkOf s.slotCount).isSome) :
    ∃ chunk, s.allocate m descId mem fails = (.returned s.slotCount,
      ({ s with slotCount := s.slotCount + 1 } : Store).setMeta s.slotCount chunk (some mem)
        descId) := by
  cases hchunk : s.chunks (s.slotCount / kChunkSize) with
  | some chunk =>
    refine ⟨chunk, ?_⟩
    simp only [allocate, hslot, hany, hbound, hchunk, if_true, if_false, Bool.false_eq_true]
  | none =>
    have hfails : fails = false := by
      by_contra hne
      have hsome := hthere (by simpa using hne)
      rw [chunkOf, if_pos hbound, hchunk] at hsome
      cases hsome
    refine ⟨{}, ?_⟩
    simp only [allocate, hslot, hany, hbound, hchunk, hfails, if_true, if_false,
      Bool.false_eq_true]

end Store

/-! ## The invariant -/

section Invariant

variable {m : Option ℕ} {s s' : State} {c : Call} {id : SlotId}

/-- The slots below the count are free, under construction or live, each once; their chunks are
    published, and no other slot was returned. -/
structure Inv (s : State) : Prop where
  partition : ∃ chain, Linked s.store.nextFree s.store.freelistHead.slot chain ∧
    (chain ++ (s.building ++ s.live)).Perm (List.range s.store.slotCount)
  count : s.store.slotCount ≤ kChunkSize * kMaxChunks
  published : ∀ id < s.store.slotCount, (s.store.chunkOf id).isSome
  issued : ∀ id ∈ s.issued, id < s.store.slotCount

theorem Inv.initial : Inv {} where
  partition := ⟨[], by simp, .refl _⟩
  count := Nat.zero_le _
  published := fun _ hid => absurd hid (Nat.not_lt_zero _)
  issued := fun _ hid => nomatch hid

theorem Inv.lt_of_mem (h : Inv s) (hid : id ∈ s.building ++ s.live) : id < s.store.slotCount := by
  obtain ⟨chain, -, hperm⟩ := h.partition
  exact List.mem_range.mp (hperm.subset (List.mem_append_right chain hid))

/-- A call that only writes to a chunk keeps what is known about the store. -/
theorem Inv.setChunk (h : Inv s) {chunk chunk' : Chunk} (hchunk : s.store.chunkOf id = some chunk)
    (hnext : chunk'.nextFree = chunk.nextFree) (n : ℕ) {building live issued : List SlotId}
    (hslots : (building ++ live).Perm (s.building ++ s.live))
    (hissued : ∀ id ∈ issued, id < s.store.slotCount) :
    Inv ⟨{ s.store.setChunk id chunk' with liveSlotCount := n }, building, live, issued⟩ where
  partition := by
    obtain ⟨chain, hlinked, hperm⟩ := h.partition
    refine ⟨chain, ?_, (List.Perm.append_left chain hslots).trans hperm⟩
    have hnextFree : ({ s.store.setChunk id chunk' with liveSlotCount := n } : Store).nextFree =
        s.store.nextFree := Store.nextFree_setChunk hchunk hnext
    rw [hnextFree]
    exact hlinked
  count := h.count
  published := fun j hj => Store.isSome_chunkOf_setChunk (h.published j hj)
  issued := hissued

/-- A slot that a caller held is pushed onto the free list. -/
theorem Inv.push (h : Inv s) {chunk : Chunk} (hchunk : s.store.chunkOf id = some chunk)
    (g : UInt32) (n : ℕ) {building live : List SlotId}
    (hslots : (s.building ++ s.live).Perm (id :: (building ++ live))) :
    Inv ⟨{ s.store.push id chunk g with liveSlotCount := n }, building, live, s.issued⟩ where
  partition := by
    obtain ⟨chain, hlinked, hperm⟩ := h.partition
    have hnodup : (chain ++ (s.building ++ s.live)).Nodup :=
      hperm.nodup_iff.mpr List.nodup_range
    have hid : id ∉ chain := fun hmem =>
      (List.nodup_append.mp hnodup).2.2 id hmem id (hslots.mem_iff.mpr List.mem_cons_self) rfl
    refine ⟨id :: chain, ?_, ?_⟩
    · have hnextFree : ({ s.store.push id chunk g with liveSlotCount := n } : Store).nextFree =
          update s.store.nextFree id s.store.freelistHead.slot := Store.nextFree_push hchunk g
      refine Linked.some_iff.mpr ⟨chain, rfl, ?_⟩
      rw [hnextFree, update_self]
      refine hlinked.congr fun j hj => ?_
      have hne : j ≠ id := fun he => hid (he ▸ hj)
      exact update_of_ne hne ..
    · refine List.Perm.trans ?_ hperm
      exact ((List.Perm.append_left chain hslots).trans List.perm_middle).symm
  count := h.count
  published := fun j hj => Store.isSome_chunkOf_setChunk (h.published j hj)
  issued := h.issued

/-- The slot on top of the free list is taken. -/
theorem Inv.pop (h : Inv s) {slot : SlotId} (hslot : s.store.freelistHead.slot = some slot)
    (mem : Addr) (descId : DescriptorId) :
    ∃ chunk, s.store.chunkOf slot = some chunk ∧ slot ∉ s.building ++ s.live ∧
      Inv ⟨{ s.store.setMeta slot chunk (some mem) descId with
          freelistHead := ⟨0, chunk.nextFree (slot % kChunkSize)⟩ },
        slot :: s.building, s.live, slot :: s.issued⟩ := by
  obtain ⟨chain, hlinked, hperm⟩ := h.partition
  rw [hslot] at hlinked
  obtain ⟨rest, rfl, hrest⟩ := Linked.some_iff.mp hlinked
  have hlt : slot < s.store.slotCount := List.mem_range.mp (hperm.subset (by simp))
  obtain ⟨chunk, hchunk⟩ := Option.isSome_iff_exists.mp (h.published slot hlt)
  have hnodup : (slot :: (rest ++ (s.building ++ s.live))).Nodup :=
    hperm.nodup_iff.mpr List.nodup_range
  have hnot : slot ∉ s.building ++ s.live := fun hmem =>
    (List.nodup_cons.mp hnodup).1 (List.mem_append_right rest hmem)
  have hnext : s.store.nextFree slot = chunk.nextFree (slot % kChunkSize) := by
    rw [Store.nextFree, hchunk, Option.bind_some]
  have hissued : ∀ id ∈ slot :: s.issued, id < s.store.slotCount := fun id hid =>
    (List.mem_cons.mp hid).elim (fun he => he ▸ hlt) (h.issued id)
  refine ⟨chunk, hchunk, hnot, ⟨rest, ?_, ?_⟩, h.count,
    fun j hj => Store.isSome_chunkOf_setChunk (h.published j hj), hissued⟩
  · have hnextFree : ({ s.store.setMeta slot chunk (some mem) descId with
        freelistHead := ⟨0, chunk.nextFree (slot % kChunkSize)⟩ } : Store).nextFree =
          s.store.nextFree := Store.nextFree_setChunk hchunk rfl
    rw [hnextFree, ← hnext]
    exact hrest
  · exact List.perm_middle.trans hperm

/-- The next slot is taken, in a chunk that is there or in a new one. -/
theorem Inv.grow (h : Inv s) (hslot : s.store.freelistHead.slot = none)
    (hlt : s.store.slotCount < kChunkSize * kMaxChunks) (chunk : Chunk) (mem : Addr)
    (descId : DescriptorId) :
    Inv ⟨({ s.store with slotCount := s.store.slotCount + 1 } : Store).setMeta s.store.slotCount
        chunk (some mem) descId,
      s.store.slotCount :: s.building, s.live, s.store.slotCount :: s.issued⟩ := by
  have hbound : s.store.slotCount / kChunkSize < kMaxChunks := Nat.div_lt_of_lt_mul hlt
  obtain ⟨chain, hlinked, hperm⟩ := h.partition
  rw [hslot, Linked.none_iff] at hlinked
  subst hlinked
  refine ⟨⟨[], ?_, ?_⟩, hlt, fun j hj => ?_, fun j hj => ?_⟩
  · exact (congrArg (Linked _ · []) hslot :).mpr trivial
  · refine (hperm.cons s.store.slotCount).trans ?_
    change (s.store.slotCount :: List.range s.store.slotCount).Perm
      (List.range (s.store.slotCount + 1))
    rw [List.range_succ]
    exact (List.perm_append_singleton ..).symm
  · rcases Nat.lt_succ_iff_lt_or_eq.mp hj with hj | rfl
    · exact Store.isSome_chunkOf_setChunk (s := { s.store with slotCount := _ }) (h.published j hj)
    · have hset : (({ s.store with slotCount := s.store.slotCount + 1 } : Store).setMeta
          s.store.slotCount chunk (some mem) descId).chunkOf s.store.slotCount = _ :=
        Store.chunkOf_setChunk hbound
      rw [if_pos rfl] at hset
      exact Option.isSome_iff_exists.mpr ⟨_, hset⟩
  · rcases List.mem_cons.mp hj with rfl | hj
    · exact Nat.lt_succ_self _
    · exact Nat.lt_succ_of_lt (h.issued j hj)

/-- The free slots and those that callers hold are all there are. -/
theorem Inv.outstanding_le (h : Inv s) : s.outstanding ≤ s.store.slotCount := by
  obtain ⟨chain, -, hperm⟩ := h.partition
  have hlen := hperm.length_eq
  rw [List.length_append, List.length_range] at hlen
  exact Nat.le.intro ((Nat.add_comm ..).trans hlen)

theorem Inv.outstanding_eq (h : Inv s) (hslot : s.store.freelistHead.slot = none) :
    s.outstanding = s.store.slotCount := by
  obtain ⟨chain, hlinked, hperm⟩ := h.partition
  rw [hslot, Linked.none_iff] at hlinked
  subst hlinked
  have hlen := hperm.length_eq
  rwa [List.nil_append, List.length_range] at hlen

/-- A slot that is on the free list is not held. -/
theorem Inv.outstanding_lt (h : Inv s) {slot : SlotId}
    (hslot : s.store.freelistHead.slot = some slot) : s.outstanding < s.store.slotCount := by
  obtain ⟨chain, hlinked, hperm⟩ := h.partition
  rw [hslot] at hlinked
  obtain ⟨rest, rfl, -⟩ := Linked.some_iff.mp hlinked
  have hlen := hperm.length_eq
  rw [List.length_append, List.length_range, List.length_cons] at hlen
  rw [State.outstanding]
  omega

/-- An allocation that has room returns a slot, or the configured limit is reached. -/
theorem Inv.allocate (h : Inv s) (descId : DescriptorId) (mem : Addr) {fails : Bool}
    (hthere : s.ChunkThere fails)
    (hroom : s.store.freelistHead.slot = none → m.any (s.store.slotCount ≥ ·) = false →
      s.store.slotCount < kChunkSize * kMaxChunks) :
    Inv (s.call m (.allocate descId mem fails)).2 ∧
      s.Allocates (s.call m (.allocate descId mem fails)).1
        (s.call m (.allocate descId mem fails)).2 := by
  -- Whatever slot is returned, its chunk is there and nobody holds it.
  have hsafe : ∀ (id : SlotId) (store : Store), id ∉ s.building ++ s.live →
      Inv ⟨store, id :: s.building, s.live, id :: s.issued⟩ →
      s.store.allocate m descId mem fails = (.returned id, store) →
      Inv (s.call m (.allocate descId mem fails)).2 ∧
        s.Allocates (s.call m (.allocate descId mem fails)).1
          (s.call m (.allocate descId mem fails)).2 := by
    intro id store hnot hinv heq
    obtain ⟨hbound, hsome⟩ :=
      Store.chunkOf_of_isSome (hinv.published id (hinv.issued id List.mem_cons_self))
    rw [List.mem_append, not_or] at hnot
    simp only [State.call, heq]
    exact ⟨hinv, .inl ⟨id, rfl, hbound, hsome, hnot⟩⟩
  -- A free slot, the configured limit, or the next slot of the store.
  cases hslot : s.store.freelistHead.slot with
  | some slot =>
    obtain ⟨chunk, hchunk, hnot, hinv⟩ := h.pop hslot mem descId
    refine hsafe slot _ hnot hinv ?_
    simp only [Store.allocate, hslot, Store.access, hchunk]
  | none =>
    have hnot : s.store.slotCount ∉ s.building ++ s.live := fun hmem =>
      Nat.lt_irrefl _ (h.lt_of_mem hmem)
    cases hany : m.any (s.store.slotCount ≥ ·) with
    | true =>
      simp only [State.call, Store.allocate, hslot, hany, if_true]
      exact ⟨h, .inr ⟨_, rfl, rfl⟩⟩
    | false =>
      have hlt := hroom hslot hany
      have hchunk : fails = true → (s.store.chunkOf s.store.slotCount).isSome := fun hfails =>
        (hthere hfails).resolve_left (by rw [hslot]; decide)
      obtain ⟨chunk, hchunk⟩ := Store.allocate_of_none descId mem fails hslot hany
        (Nat.div_lt_of_lt_mul hlt) hchunk
      exact hsafe _ _ hnot (h.grow hslot hlt chunk mem descId) hchunk

/-- Without a configured limit, an allocation that has no room goes wrong. -/
theorem Inv.not_allocates (h : Inv s) (descId : DescriptorId) (mem : Addr) (fails : Bool)
    (hroom : ¬ s.Room (.allocate descId mem fails)) :
    ¬ s.Allocates (s.call none (.allocate descId mem fails)).1
      (s.call none (.allocate descId mem fails)).2 := by
  have hoops : ∀ outcome store, s.store.allocate none descId mem fails = (outcome, store) →
      outcome = .badAlloc ∨ outcome = .outOfBounds →
      ¬ s.Allocates (s.call none (.allocate descId mem fails)).1
        (s.call none (.allocate descId mem fails)).2 := by
    intro outcome store heq hout
    simp only [State.call, heq]
    rintro (⟨id, hid, -⟩ | ⟨failure, hfailure, -⟩)
    · rcases hout with rfl | rfl <;> cases hid
    · rcases hout with rfl | rfl <;> cases hfailure
  cases hslot : s.store.freelistHead.slot with
  | some slot =>
    -- The free list has a slot, so fewer slots are held than there are.
    refine absurd ⟨Nat.lt_of_lt_of_le (h.outstanding_lt hslot) h.count, fun _ => .inl ?_⟩ hroom
    rw [hslot]
    rfl
  | none =>
    by_cases hbound : s.store.slotCount / kChunkSize < kMaxChunks
    · have hlt : s.outstanding < kChunkSize * kMaxChunks := by
        rw [h.outstanding_eq hslot, Nat.mul_comm]
        exact (Nat.div_lt_iff_lt_mul (by decide)).mp hbound
      have hthere : ¬ s.ChunkThere fails := fun hthere => hroom ⟨hlt, hthere⟩
      obtain ⟨rfl, hnone⟩ := Classical.not_imp.mp hthere
      have hchunk : s.store.chunks (s.store.slotCount / kChunkSize) = none := by
        rw [not_or, Store.chunkOf, if_pos hbound] at hnone
        exact Option.not_isSome_iff_eq_none.mp hnone.2
      refine hoops .badAlloc { s.store with slotCount := s.store.slotCount + 1 } ?_ (.inl rfl)
      simp only [Store.allocate, hslot, hbound, hchunk, Option.any_none, if_true, if_false,
        Bool.false_eq_true]
    · refine hoops .outOfBounds { s.store with slotCount := s.store.slotCount + 1 } ?_ (.inr rfl)
      simp only [Store.allocate, hslot, hbound, Option.any_none, if_false, Bool.false_eq_true]

/-- A slot that was returned is accessed inside the array. -/
theorem Inv.exists_chunk (h : Inv s) (hid : id < s.store.slotCount) :
    ∃ chunk, s.store.chunkOf id = some chunk :=
  Option.isSome_iff_exists.mp (h.published id hid)

/-- The step lemma for the calls that do not allocate. -/
theorem Inv.call (h : Inv s) (hc : s.Allowed c) (hne : ∀ d mem fails, c ≠ .allocate d mem fails) :
    Inv (s.call m c).2 ∧ (s.call m c).1 = .done := by
  have hheld : ∀ {id : SlotId}, id ∈ s.building ++ s.live → id < s.store.slotCount :=
    fun hid => h.lt_of_mem hid
  -- A call that its caller may make uses the chunk of a slot that was returned once.
  cases c with
  | allocate d mem fails => exact absurd rfl (hne d mem fails)
  | activate id =>
    have hid : id ∈ s.building := hc
    obtain ⟨chunk, hchunk⟩ := h.exists_chunk (hheld (List.mem_append_left _ hid))
    simp only [State.call, State.setStore, Store.activate, Store.access, hchunk]
    refine ⟨h.setChunk hchunk ?_ _ ?_ h.issued, trivial⟩
    · rfl
    · exact List.perm_middle.trans ((List.perm_cons_erase hid).symm.append_right s.live)
  | reclaim id =>
    have hid : id ∈ s.building := hc
    obtain ⟨chunk, hchunk⟩ := h.exists_chunk (hheld (List.mem_append_left _ hid))
    simp only [State.call, State.setStore, Store.reclaim, Store.access, hchunk]
    exact ⟨h.push hchunk _ _ ((List.perm_cons_erase hid).append_right s.live), trivial⟩
  | retain id =>
    obtain ⟨chunk, hchunk⟩ := h.exists_chunk (h.issued id hc)
    simp only [State.call, State.setStore, Store.retain, Store.count, Store.access, hchunk]
    refine ⟨h.setChunk hchunk ?_ _ (.refl _) h.issued, trivial⟩
    rfl
  | releaseAcquire id =>
    obtain ⟨chunk, hchunk⟩ := h.exists_chunk (h.issued id hc)
    simp only [State.call, State.setStore, Store.releaseAcquire, Store.count, Store.access, hchunk]
    refine ⟨h.setChunk hchunk ?_ _ (.refl _) h.issued, trivial⟩
    rfl
  | reclaimSlot id =>
    have hid : id ∈ s.live := hc
    obtain ⟨chunk, hchunk⟩ := h.exists_chunk (hheld (List.mem_append_right _ hid))
    simp only [State.call, State.setStore, Store.reclaimSlot, Store.access, hchunk]
    refine ⟨h.push hchunk _ _ ?_, trivial⟩
    exact ((List.perm_cons_erase hid).append_left s.building).trans List.perm_middle

/-- What is known after a call whose slots can all be accessed. -/
theorem Inv.safe (h : Inv (s.call m c).2) (hout : s.Ends m c) : s.Safe m c :=
  ⟨hout, fun id hid => h.published id (h.issued id hid)⟩

/-- The step lemma: a call that has room is safe and keeps the invariant. -/
theorem Inv.step (h : Inv s) (hc : s.Allowed c) (hroom : s.Room c) :
    Inv (s.call none c).2 ∧ s.Safe none c := by
  cases c with
  | allocate d mem fails =>
    have halloc := h.allocate (m := none) d mem hroom.2 fun hslot _ =>
      h.outstanding_eq hslot ▸ hroom.1
    exact ⟨halloc.1, halloc.1.safe halloc.2⟩
  | activate | reclaim | retain | releaseAcquire | reclaimSlot =>
    have hcall := h.call (m := none) hc fun _ _ _ => nofun
    exact ⟨hcall.1, hcall.1.safe hcall.2⟩

theorem step_of_allowed (hc : s.Allowed c) : (machine m).step s c = some (s.call m c).2 :=
  if_pos hc

end Invariant

/-! ## The results -/

/-- Without a configured limit, all calls of a run are safe exactly if every allocation happens
    while fewer slots are held than the chunks of the array have, and gets the chunk that it
    needs. -/
theorem allocations_safe_iff (cs : List Call) :
    (∀ k s c s', (machine none).run {} (cs.take k) = some s → cs[k]? = some c →
      (machine none).step s c = some s' → s.Safe none c) ↔
      (machine none).Along (fun s c => s.Allowed c → s.Room c) {} cs := by
  refine Machine.along_iff_forall_step (I := Inv) (Q := fun s c _ => s.Safe none c)
    (fun s c s' h hroom hs => ?_) (fun s c s' h hs => ?_) (fun s c _ hs hc => ?_) Inv.initial cs
  · obtain ⟨hc, ⟨⟩⟩ := Option.ite_none_right_eq_some.mp hs
    exact (h.step hc (hroom hc)).1
  · obtain ⟨hc, ⟨⟩⟩ := Option.ite_none_right_eq_some.mp hs
    refine ⟨fun hsafe _ => ?_, fun hroom => (h.step hc (hroom hc)).2⟩
    cases c with
    | allocate d mem fails =>
      by_contra hroom
      exact h.not_allocates d mem fails hroom hsafe.1
    | activate | reclaim | retain | releaseAcquire | reclaimSlot => trivial
  · cases (step_of_allowed hc).symm.trans hs

/-- A slot is allocated and activated for each of `n` prototypes. -/
def filling (n : ℕ) : List Call :=
  (List.range n).flatMap fun i => [.allocate 0 i false, .activate i]

theorem filling_succ (n : ℕ) :
    filling (n + 1) = filling n ++ [.allocate 0 n false, .activate n] := by
  rw [filling, List.range_succ, List.flatMap_append]
  rfl

/-- All slots are those of live prototypes. -/
structure Filled (s : State) (n : ℕ) : Prop where
  inv : Inv s
  building : s.building = []
  live : s.live.length = n
  slotCount : s.store.slotCount = n
  slot : s.store.freelistHead.slot = none

/-- One more prototype comes to live in the next slot. -/
theorem Filled.exists_next {s : State} {n : ℕ} (h : Filled s n)
    (hn : n < kChunkSize * kMaxChunks) :
    ∃ s', (machine none).run s [.allocate 0 n false, .activate n] = some s' ∧
      Filled s' (n + 1) := by
  have hlt : s.store.slotCount < kChunkSize * kMaxChunks := h.slotCount ▸ hn
  obtain ⟨chunk, halloc⟩ := Store.allocate_of_none (m := none) 0 n false h.slot rfl
    (Nat.div_lt_of_lt_mul hlt) nofun
  -- The state after the allocation, whose name keeps the terms below small.
  obtain ⟨s₁, hs₁⟩ : ∃ s₁ : State, s₁ =
      ⟨({ s.store with slotCount := s.store.slotCount + 1 } : Store).setMeta s.store.slotCount
        chunk (some n) 0, s.store.slotCount :: s.building, s.live,
        s.store.slotCount :: s.issued⟩ := ⟨_, rfl⟩
  have hstep₁ : (machine none).step s (.allocate 0 n false) = some s₁ := by
    rw [hs₁]
    simp only [machine, State.Allowed, State.call, halloc, if_true]
  have h₁ : Inv s₁ := hs₁ ▸ h.inv.grow h.slot hlt chunk n 0
  have hbuilding : s₁.building = [n] := by rw [hs₁, h.building, h.slotCount]
  have hallowed : s₁.Allowed (.activate n) := by
    rw [State.Allowed, hbuilding]
    exact List.mem_cons_self
  obtain ⟨chunk₁, hchunk₁⟩ := h₁.exists_chunk (h₁.lt_of_mem (List.mem_append_left _ hallowed))
  refine ⟨(s₁.call none (.activate n)).2, ?_, (h₁.call hallowed fun _ _ _ => nofun).1, ?_, ?_, ?_,
    ?_⟩
  · rw [Machine.run_cons, hstep₁, Option.bind_some, Machine.run_cons, step_of_allowed hallowed]
    rfl
  · change s₁.building.erase n = []
    rw [hbuilding]
    exact List.erase_cons_head ..
  · change s₁.live.length + 1 = n + 1
    rw [hs₁, h.live]
  · simp only [State.call, State.setStore, Store.activate, Store.access, hchunk₁]
    change s₁.store.slotCount = n + 1
    rw [hs₁, ← h.slotCount]
    rfl
  · simp only [State.call, State.setStore, Store.activate, Store.access, hchunk₁]
    change s₁.store.freelistHead.slot = none
    rw [hs₁]
    exact h.slot

/-- As many prototypes as the chunks have slots can be live. -/
theorem exists_filled {n : ℕ} (hn : n ≤ kChunkSize * kMaxChunks) :
    ∃ s, (machine none).run {} (filling n) = some s ∧ Filled s n := by
  induction n with
  | zero => exact ⟨{}, rfl, .initial, rfl, rfl, rfl, rfl⟩
  | succ n ih =>
    obtain ⟨s, hr, h⟩ := ih (Nat.le_of_succ_le hn)
    obtain ⟨s', hs', h'⟩ := h.exists_next hn
    exact ⟨s', by rw [filling_succ, Machine.run_append hr, hs'], h'⟩

/-- With 65536 live prototypes, the allocation of the next one reads behind the array. -/
theorem allocation_outside_array : ¬ ∀ k s c s',
    (machine none).run {}
      ((filling (kChunkSize * kMaxChunks) ++ [Call.allocate 0 0 false]).take k) = some s →
    (filling (kChunkSize * kMaxChunks) ++ [Call.allocate 0 0 false])[k]? = some c →
    (machine none).step s c = some s' → s.Safe none c := by
  intro hsafe
  obtain ⟨s, hr, h⟩ := exists_filled (Nat.le_refl (kChunkSize * kMaxChunks))
  -- All slots of the chunks are held.
  have hroom : ¬ s.Room (.allocate 0 0 false) := fun hroom => by
    have hlt : s.outstanding < kChunkSize * kMaxChunks := hroom.1
    rw [h.inv.outstanding_eq h.slot, h.slotCount] at hlt
    exact Nat.lt_irrefl _ hlt
  have hstep : (machine none).step s (.allocate 0 0 false) =
      some (s.call none (.allocate 0 0 false)).2 := step_of_allowed trivial
  generalize filling (kChunkSize * kMaxChunks) = cs at hsafe hr
  refine h.inv.not_allocates 0 0 false hroom (hsafe cs.length s _ _ ?_ ?_ hstep).1
  · rwa [List.take_left]
  · simp

/-- A chunk that has to be allocated is allocated. -/
def ChunksThere (s : State) : Call → Prop
  | .allocate _ _ fails => s.ChunkThere fails
  | _ => True

/-- With a configured limit that fits into the array, all calls are safe as long as the chunks
    can be allocated: an allocation beyond the limit raises its error and changes nothing. -/
theorem allocations_safe_of_maxSlots {maxSlots : ℕ} (hmax : maxSlots ≤ kChunkSize * kMaxChunks)
    {s : State} (hs : (machine (some maxSlots)).ReachableBy ChunksThere s) {c : Call}
    (hc : s.Allowed c) (hthere : ChunksThere s c) : s.Safe (some maxSlots) c := by
  have hstep : ∀ {s : State} {c : Call}, Inv s → s.Allowed c → ChunksThere s c →
      Inv (s.call (some maxSlots) c).2 ∧ s.Safe (some maxSlots) c := by
    intro s c h hc hthere
    cases c with
    | allocate d mem fails =>
      have halloc := h.allocate (m := some maxSlots) d mem hthere fun _ hany =>
        Nat.lt_of_lt_of_le (by simpa using hany) hmax
      exact ⟨halloc.1, halloc.1.safe halloc.2⟩
    | activate | reclaim | retain | releaseAcquire | reclaimSlot =>
      have hcall := h.call (m := some maxSlots) hc fun _ _ _ => nofun
      exact ⟨hcall.1, hcall.1.safe hcall.2⟩
  have hinv : Inv s := hs.invariant (fun s hinit => hinit ▸ Inv.initial)
    fun s c s' h hthere hs => by
      obtain ⟨hc, ⟨⟩⟩ := Option.ite_none_right_eq_some.mp hs
      exact (hstep h hc hthere).1
  exact (hstep hinv hc hthere).2

end Ctorium.Capacity
