import Ctorium.Prototype.Capacity
import Ctorium.Prototype.Unwinding

/-!
# The store in chunks and the store without them

`Prototype` and `Unwinding` see a store as slots with a free list; in `Capacity` the slots lie in
chunks, the free list runs through them, and the head is a word. A `View` is what the first two
work on, with the operations of `PrototypeStore` in its terms. `Represents` relates it to a store
in chunks, and each operation on the view is a call of `Capacity` that is safe.

* `Represents.allocate`, `activate`, `count`, `reclaim`, `reclaimSlot`: the calls, as long as their
  callers hold what they use.
* `Represents.allocate_outcome`: an allocation of `Unwinding` ends as the call in chunks does,
  its errors included.
-/

namespace Ctorium.Prototype

open Function

/-! ## Views -/

/-- What handles and resolutions see of a store. -/
structure View where
  slots : SlotId → Slot := fun _ => {}
  slotCount : ℕ := 0
  freelist : List SlotId := []

namespace View

variable (v : View)

def setSlot (i : SlotId) (sl : Slot) : View := { v with slots := update v.slots i sl }

/-- The slot that `allocate` returns. -/
def next : SlotId := v.freelist.headD v.slotCount

/-- `PrototypeStore::allocate`, where it returns a slot. -/
def allocate (d : DescriptorId) (mem : Option ObjectId) : View :=
  { v.setSlot v.next { v.slots v.next with memory := mem, descId := d } with
    slotCount := if v.freelist = [] then v.slotCount + 1 else v.slotCount
    freelist := v.freelist.tail }

/-- `PrototypeStore::activate`. -/
def activate (i : SlotId) : View := v.setSlot i { v.slots i with refcount := 1 }

/-- `retain` and `releaseAcquire`, which add to the counter of a slot. -/
def count (i : SlotId) (n : ℕ) : View :=
  v.setSlot i { v.slots i with refcount := ((v.slots i).refcount + n) % 2 ^ 32 }

/-- `PrototypeStore::takeSlotMetaForDestruction`. -/
def clear (i : SlotId) : View := v.setSlot i { v.slots i with memory := none }

/-- `reclaim` and `reclaimSlot`. -/
def push (i : SlotId) : View := { v.clear i with freelist := i :: v.freelist }

theorem setSlot_slots (i : SlotId) (sl : Slot) :
    (v.setSlot i sl).slots = update v.slots i sl := rfl

theorem allocate_slots (d : DescriptorId) (mem : Option ObjectId) : (v.allocate d mem).slots =
    update v.slots v.next { v.slots v.next with memory := mem, descId := d } := rfl

theorem clear_slots (i : SlotId) :
    (v.clear i).slots = update v.slots i { v.slots i with memory := none } := rfl

theorem allocate_of_nil (h : v.freelist = []) (d : DescriptorId) (mem : Option ObjectId) :
    v.allocate d mem =
      { v.setSlot v.slotCount { v.slots v.slotCount with memory := mem, descId := d } with
        slotCount := v.slotCount + 1 } := by
  simp [allocate, next, h, setSlot]

theorem allocate_of_cons {i : SlotId} {rest : List SlotId} (h : v.freelist = i :: rest)
    (d : DescriptorId) (mem : Option ObjectId) :
    v.allocate d mem =
      { v.setSlot i { v.slots i with memory := mem, descId := d } with freelist := rest } := by
  simp [allocate, next, h, setSlot]

end View

/-- The store of the handles. -/
def State.view (s : State) : View := ⟨s.slots, s.slotCount, s.freelist⟩

/-! ### The operations on handles -/

section Handles

variable {s : State} {i : SlotId} {d : DescriptorId} {o : ObjectId} {h : Handle}

@[simp] theorem view_retain : (s.retain i).view = s.view.count i 1 := rfl

@[simp] theorem view_reclaimSlot : (s.reclaimSlot i).view = s.view.push i := rfl

@[simp] theorem view_abandon : (s.abandon i o).view = s.view.push i := rfl

@[simp] theorem view_newCell {owner : Option ObjectId} : (s.newCell h owner).view = s.view := rfl

@[simp] theorem view_setHandle {c : CellId} : (s.setHandle c h).view = s.view := rfl

theorem view_retainIfPrototype : (s.retainIfPrototype h).view =
    if h.isPrototype then s.view.count h.slot 1 else s.view := by
  unfold State.retainIfPrototype
  split <;> rfl

theorem view_allocate : (s.allocate d).view = s.view.allocate d (some s.nextObject) := by
  cases hfree : s.freelist with
  | nil =>
    rw [View.allocate_of_nil _ hfree]
    simp [State.allocate, State.allocateSlot, hfree, State.view, State.setSlot, View.setSlot]
  | cons j rest =>
    rw [View.allocate_of_cons _ hfree]
    simp [State.allocate, State.allocateSlot, hfree, State.view, State.setSlot, View.setSlot]

theorem view_activate {members : List CellId} {returned : Bool} :
    (s.activate i o members returned).view = s.view.activate i := by
  unfold State.activate
  split <;> rfl

/-- A release counts down; for the last handle it takes the object out of the slot. -/
theorem view_release : (s.release i).1.view =
    if (s.slots i).refcount = 1 then (s.view.count i (2 ^ 32 - 1)).clear i
    else s.view.count i (2 ^ 32 - 1) := by
  unfold State.release
  dsimp only
  split_ifs with hlast
  · cases hmem : (s.slots i).memory with
    | none =>
      have hslot : ((s.view.count i (2 ^ 32 - 1)).slots i).memory = none := by
        simp [View.count, View.setSlot, State.view, hmem]
      have hsame : (s.view.count i (2 ^ 32 - 1)).clear i = s.view.count i (2 ^ 32 - 1) := by
        rw [View.clear, View.setSlot, ← hslot, update_eq_self]
      rw [hsame]
      simp only [State.view, View.count, View.setSlot, State.setSlot, hmem]
    | some o => simp only [State.view, View.count, View.clear, View.setSlot, State.setSlot, hmem]
  · rfl

end Handles

end Ctorium.Prototype

namespace Ctorium.Unwinding

open Prototype (View)

/-- The store of the resolutions. -/
def State.view (s : State) : View := ⟨s.slots, s.slotCount, s.freelist⟩

section Resolutions

variable {s : State} {i : Prototype.SlotId}

@[simp] theorem view_activate : (s.activate i).view = s.view.activate i := rfl

@[simp] theorem view_retain : (s.retain i).view = s.view.count i 1 := rfl

@[simp] theorem view_releaseAcquire :
    (s.releaseAcquire i).view = s.view.count i (2 ^ 32 - 1) := rfl

@[simp] theorem view_reclaim : (s.reclaim i).view = s.view.push i := rfl

@[simp] theorem view_reclaimSlot : (s.reclaimSlot i).view = s.view.push i := rfl

theorem view_allocate {P : Platform} {d : DescriptorId} {mem : Option Prototype.ObjectId}
    (h : (s.allocate P d mem).failure = none) :
    (s.allocate P d mem).state.view = s.view.allocate d mem := by
  unfold State.allocate at h ⊢
  dsimp only at h ⊢
  cases hfree : s.freelist with
  | nil =>
    have hview : s.view.freelist = [] := hfree
    rw [View.allocate_of_nil _ hview]
    have hnext : s.nextSlot = s.slotCount := by rw [State.nextSlot, hfree]; rfl
    rw [hfree] at h
    dsimp only at h ⊢
    -- Neither the limit nor the chunk stops it.
    split_ifs at h ⊢
    · cases h
    · cases h
    · rw [hnext]
      rfl
  | cons j rest =>
    have hview : s.view.freelist = j :: rest := hfree
    have hnext : s.nextSlot = j := by rw [State.nextSlot, hfree]; rfl
    rw [View.allocate_of_cons _ hview, hnext]
    rfl

end Resolutions

end Ctorium.Unwinding

namespace Ctorium.Capacity

open Function
open Freelist (SlotId kChunkSize kMaxChunks)
open Prototype (View ObjectId)

/-! ## The fields of a slot -/

namespace Store

variable {β : Type} {s : Store} {field : Chunk → ℕ → β} {id j : SlotId} {chunk chunk' : Chunk}

/-- A field of a slot, wherever its chunk lies, and its initial value where there is no chunk. -/
def fieldAt (s : Store) (field : Chunk → ℕ → β) (id : SlotId) : β :=
  field ((s.chunkOf id).getD {}) (id % kChunkSize)

def refcountAt (s : Store) : SlotId → ℕ := s.fieldAt Chunk.refcounts

/-- `PrototypeStore::slotMetaAt`. -/
def slotMetaAt (s : Store) : SlotId → Option Addr × DescriptorId := s.fieldAt Chunk.metas

theorem chunkOf_congr (h : j / kChunkSize = id / kChunkSize) : s.chunkOf j = s.chunkOf id := by
  rw [chunkOf, chunkOf, h]

/-- The slots are in the chunks, whatever the head and the counters are. -/
theorem fieldAt_of_chunks {s' : Store} (h : s'.chunks = s.chunks) :
    s'.fieldAt field = s.fieldAt field := by
  funext i
  rw [fieldAt, chunkOf, h, fieldAt, chunkOf]

/-- A field that a write to a chunk leaves. -/
theorem fieldAt_setChunk_of_eq (hid : id / kChunkSize < kMaxChunks)
    (h : field chunk' = field ((s.chunkOf id).getD {})) :
    (s.setChunk id chunk').fieldAt field = s.fieldAt field := by
  funext j
  rw [fieldAt, chunkOf_setChunk hid, fieldAt]
  split_ifs with hj
  · rw [Option.getD_some, h, chunkOf_congr hj]
  · rfl

/-- A field that a write to a chunk changes for one slot. -/
theorem fieldAt_setChunk_of_update (hid : id / kChunkSize < kMaxChunks) {v : β}
    (h : field chunk' = update (field ((s.chunkOf id).getD {})) (id % kChunkSize) v) :
    (s.setChunk id chunk').fieldAt field = update (s.fieldAt field) id v := by
  funext j
  rw [fieldAt, chunkOf_setChunk hid, update_apply]
  by_cases hj : j = id
  · rw [if_pos (hj ▸ rfl), if_pos hj, Option.getD_some, h, hj, update_self]
  · rw [if_neg hj, fieldAt]
    split_ifs with hdiv
    · have hmod : j % kChunkSize ≠ id % kChunkSize := fun hmod => hj (eq_of_chunk_eq hdiv hmod)
      rw [Option.getD_some, h, update_of_ne hmod, chunkOf_congr hdiv]
    · rfl

/-- With an empty free list, an allocation that gets its chunk returns the next slot. -/
theorem exists_allocate_of_none (d : DescriptorId) (mem : Addr) (fails : Bool)
    (hslot : s.freelistHead.slot = none) (hbound : s.slotCount / kChunkSize < kMaxChunks)
    (hthere : fails = true → (s.chunkOf s.slotCount).isSome) :
    ∃ chunk, (s.chunkOf s.slotCount).getD {} = chunk ∧
      s.allocate none d mem fails = (.returned s.slotCount,
        ({ s with slotCount := s.slotCount + 1 } : Store).setMeta s.slotCount chunk (some mem)
          d) := by
  refine ⟨_, rfl, ?_⟩
  rw [chunkOf, if_pos hbound] at hthere ⊢
  cases hchunk : s.chunks (s.slotCount / kChunkSize) with
  | some chunk =>
    simp only [allocate, hslot, hbound, hchunk, Option.any_none, if_true, if_false,
      Bool.false_eq_true, Option.getD_some]
  | none =>
    have hfails : fails = false := Bool.eq_false_of_not_eq_true fun hfails => by
      have hsome := hthere hfails
      rw [hchunk] at hsome
      cases hsome
    simp only [allocate, hslot, hbound, hchunk, hfails, Option.any_none, if_true, if_false,
      Bool.false_eq_true, Option.getD_none]

end Store

/-! ## The relation -/

variable {addr : ObjectId → Addr} {c c' : State} {v : View} {i : SlotId} {d : DescriptorId}
  {o : ObjectId}

/-- The calls from one state to the other, all of them safe. -/
def Calls : State → State → Prop := (machine none).Leads fun s call => s.Safe none call

/-- The slots of a store in chunks, with the objects at their addresses. Once an object is taken out
    of its slot to be destroyed, its address is not read. -/
structure Holds (addr : ObjectId → Addr) (store : Store) (slots : SlotId → Prototype.Slot) :
    Prop where
  refcount : ∀ i, store.refcountAt i = (slots i).refcount
  descId : ∀ i, (store.slotMetaAt i).2 = (slots i).descId
  memory : ∀ i o, (slots i).memory = some o → (store.slotMetaAt i).1 = some (addr o)

/-- The store in chunks is that of the view. -/
structure Represents (addr : ObjectId → Addr) (c : State) (v : View) : Prop where
  inv : Inv c
  slotCount : c.store.slotCount = v.slotCount
  freelist : Linked c.store.nextFree c.store.freelistHead.slot v.freelist
  slots : Holds addr c.store v.slots
  liveCount : c.store.liveSlotCount = c.live.length
  issued : ∀ i < v.slotCount, i ∈ c.issued

theorem Holds.of_chunks {store store' : Store} {slots : SlotId → Prototype.Slot}
    (h : Holds addr store slots) (hchunks : store'.chunks = store.chunks) :
    Holds addr store' slots := by
  refine ⟨fun i => ?_, fun i => ?_, fun i o ho => ?_⟩
  · rw [Store.refcountAt, Store.fieldAt_of_chunks hchunks]
    exact h.refcount i
  · rw [Store.slotMetaAt, Store.fieldAt_of_chunks hchunks]
    exact h.descId i
  · rw [Store.slotMetaAt, Store.fieldAt_of_chunks hchunks]
    exact h.memory i o ho

/-- A slot is written in its chunk. -/
theorem Holds.setChunk {store : Store} {slots : SlotId → Prototype.Slot}
    (h : Holds addr store slots) (hi : i / kChunkSize < kMaxChunks) {chunk chunk' : Chunk}
    (hchunk : (store.chunkOf i).getD {} = chunk) {sl : Prototype.Slot}
    {m : Option Addr × DescriptorId}
    (hrefcounts : chunk'.refcounts = update chunk.refcounts (i % kChunkSize) sl.refcount)
    (hmetas : chunk'.metas = update chunk.metas (i % kChunkSize) m)
    (hd : m.2 = sl.descId) (hm : ∀ o, sl.memory = some o → m.1 = some (addr o)) :
    Holds addr (store.setChunk i chunk') (update slots i sl) := by
  subst hchunk
  have hrefcount : (store.setChunk i chunk').refcountAt = update store.refcountAt i sl.refcount :=
    Store.fieldAt_setChunk_of_update hi hrefcounts
  have hmeta : (store.setChunk i chunk').slotMetaAt = update store.slotMetaAt i m :=
    Store.fieldAt_setChunk_of_update hi hmetas
  constructor
  · intro j
    rw [hrefcount]
    by_cases hj : j = i
    · rw [hj, update_self, update_self]
    · rw [update_of_ne hj, update_of_ne hj, h.refcount]
  · intro j
    rw [hmeta]
    by_cases hj : j = i
    · rw [hj, update_self, update_self, hd]
    · rw [update_of_ne hj, update_of_ne hj, h.descId]
  · intro j o ho
    rw [hmeta]
    by_cases hj : j = i
    · rw [hj, update_self] at ho
      rw [hj, update_self]
      exact hm o ho
    · rw [update_of_ne hj] at ho
      rw [update_of_ne hj]
      exact h.memory j o ho

/-- The counter of a slot stays where it is not written. -/
theorem Holds.refcounts_eq {store : Store} {slots : SlotId → Prototype.Slot}
    (h : Holds addr store slots) {chunk : Chunk} (hchunk : (store.chunkOf i).getD {} = chunk) :
    chunk.refcounts = update chunk.refcounts (i % kChunkSize) (slots i).refcount := by
  rw [← h.refcount, Store.refcountAt, Store.fieldAt, hchunk, update_eq_self]

/-- `metas[offset] = {mem, descId}`. -/
theorem Holds.setMeta {store : Store} {slots : SlotId → Prototype.Slot}
    (h : Holds addr store slots) (hi : i / kChunkSize < kMaxChunks) {chunk : Chunk}
    (hchunk : (store.chunkOf i).getD {} = chunk) (d : DescriptorId) (o : ObjectId) :
    Holds addr (store.setMeta i chunk (some (addr o)) d)
      (update slots i { slots i with memory := some o, descId := d }) := by
  have hrefcounts := h.refcounts_eq hchunk
  refine h.setChunk (m := (some (addr o), d)) hi hchunk hrefcounts rfl rfl fun o' ho => ?_
  rw [Option.some.inj ho]

namespace Represents

theorem initial : Represents addr {} {} where
  inv := Inv.initial
  slotCount := rfl
  freelist := by simp
  slots := by
    have hnone : ∀ i, ({} : Store).chunkOf i = none := fun i => ite_self none
    refine ⟨fun i => ?_, fun i => ?_, by rintro i o ⟨⟩⟩
    · rw [Store.refcountAt, Store.fieldAt, hnone]
      rfl
    · rw [Store.slotMetaAt, Store.fieldAt, hnone]
      rfl
  liveCount := rfl
  issued := by rintro i ⟨⟩

theorem exists_chunk (h : Represents addr c v) (hi : i < v.slotCount) :
    ∃ chunk, c.store.chunkOf i = some chunk := h.inv.exists_chunk (h.slotCount ▸ hi)

theorem lt_of_held (h : Represents addr c v) (hi : i ∈ c.building ++ c.live) : i < v.slotCount :=
  h.slotCount ▸ h.inv.lt_of_mem hi

/-- A slot that is held is not free. -/
theorem not_free (h : Represents addr c v) (hi : i ∈ c.building ++ c.live) : i ∉ v.freelist := by
  obtain ⟨chain, hchain, hperm⟩ := h.inv.partition
  have hnodup := hperm.nodup_iff.mpr List.nodup_range
  rw [h.freelist.unique hchain]
  exact fun hmem => (List.nodup_append.mp hnodup).2.2 i hmem i hi rfl

end Represents

/-- No slot is held twice. -/
theorem Inv.held_nodup (h : Inv c) : (c.building ++ c.live).Nodup := by
  obtain ⟨chain, -, hperm⟩ := h.partition
  exact (List.nodup_append.mp (hperm.nodup_iff.mpr List.nodup_range)).2.1

theorem Inv.live_nodup (h : Inv c) : c.live.Nodup := (List.nodup_append.mp h.held_nodup).2.1

theorem Inv.building_nodup (h : Inv c) : c.building.Nodup := (List.nodup_append.mp h.held_nodup).1

/-- There are fewer slots than a 32-bit counter counts. -/
theorem Inv.length_live_lt (h : Inv c) : c.live.length < 2 ^ 32 := by
  have hle := h.outstanding_le.trans h.count
  have hbound : kChunkSize * kMaxChunks < 2 ^ 32 := by decide
  rw [State.outstanding, List.length_append] at hle
  omega

/-! ## The calls -/

/-- A safe call has room. -/
theorem Inv.room_of_safe (h : Inv c) {call : Call} (hsafe : c.Safe none call) : c.Room call := by
  cases call with
  | allocate d mem fails =>
    by_contra hroom
    exact h.not_allocates d mem fails hroom hsafe.1
  | activate | reclaim | retain | releaseAcquire | reclaimSlot => trivial

/-- A call that its caller may make, and that has room, is a safe step. -/
theorem Inv.calls (h : Inv c) (call : Call) (hcall : c.Allowed call) (hroom : c.Room call) :
    Calls c (c.call none call).2 ∧ Inv (c.call none call).2 :=
  ⟨.single (h.step hcall hroom).2 (step_of_allowed hcall), (h.step hcall hroom).1⟩

namespace Represents

/-- The slot on top of the free list is taken. -/
theorem allocate_of_cons (h : Represents addr c v) {j : SlotId} {rest : List SlotId}
    (hfree : v.freelist = j :: rest) (d : DescriptorId) (o : ObjectId) :
    ∃ c', Calls c c' ∧ Represents addr c' (v.allocate d (some o)) ∧
      c'.building = j :: c.building ∧ c'.live = c.live := by
  obtain ⟨hslot, hrest⟩ : c.store.freelistHead.slot = some j ∧
      Linked c.store.nextFree (c.store.nextFree j) rest := by
    have hchain := h.freelist
    rw [hfree] at hchain
    cases hslot : c.store.freelistHead.slot with
    | none =>
      rw [hslot] at hchain
      cases hchain
    | some j' =>
      rw [hslot] at hchain
      obtain ⟨rfl, hrest⟩ := hchain
      exact ⟨rfl, hrest⟩
  obtain ⟨hcalls, hinv⟩ := h.inv.calls (.allocate d (addr o) false) trivial
    ⟨(h.inv.outstanding_lt hslot).trans_le h.inv.count, by rintro ⟨⟩⟩
  obtain ⟨chunk, hchunk, -, -⟩ := h.inv.pop hslot (addr o) d
  have hcall : (c.call none (.allocate d (addr o) false)).2 =
      ⟨{ c.store.setMeta j chunk (some (addr o)) d with
          freelistHead := ⟨0, chunk.nextFree (j % kChunkSize)⟩ },
        j :: c.building, c.live, j :: c.issued⟩ := by
    simp only [State.call, Store.allocate, hslot, Store.access, hchunk]
  rw [hcall] at hcalls hinv
  refine ⟨_, hcalls, ?_, rfl, rfl⟩
  rw [View.allocate_of_cons _ hfree]
  refine ⟨hinv, h.slotCount, ?_, ?_, h.liveCount, fun k hk => ?_⟩
  · have hnext : ({ c.store.setMeta j chunk (some (addr o)) d with
        freelistHead := ⟨0, chunk.nextFree (j % kChunkSize)⟩ } : Store).nextFree =
          c.store.nextFree := Store.nextFree_setChunk hchunk rfl
    rw [Store.nextFree, hchunk, Option.bind_some] at hrest
    rw [hnext]
    exact hrest
  · have hslots : Holds addr (c.store.setMeta j chunk (some (addr o)) d)
        (update v.slots j { v.slots j with memory := some o, descId := d }) :=
      h.slots.setMeta (Store.lt_of_chunkOf hchunk) (by rw [hchunk, Option.getD_some]) d o
    exact hslots.of_chunks rfl
  · exact List.mem_cons_of_mem _ (h.issued k hk)

/-- With an empty free list the next slot is taken, in a chunk that is there or in a new one. -/
theorem allocate_of_nil (h : Represents addr c v) (hfree : v.freelist = [])
    (hroom : v.slotCount < kChunkSize * kMaxChunks) (d : DescriptorId) (o : ObjectId) :
    ∃ c', Calls c c' ∧ Represents addr c' (v.allocate d (some o)) ∧
      c'.building = v.slotCount :: c.building ∧ c'.live = c.live := by
  have hslot : c.store.freelistHead.slot = none := by
    have hchain := h.freelist
    rw [hfree] at hchain
    cases hslot : c.store.freelistHead.slot with
    | none => rfl
    | some j =>
      rw [hslot] at hchain
      cases hchain
  have hlt : c.store.slotCount < kChunkSize * kMaxChunks := h.slotCount ▸ hroom
  have hbound : c.store.slotCount / kChunkSize < kMaxChunks := Nat.div_lt_of_lt_mul hlt
  obtain ⟨hcalls, hinv⟩ := h.inv.calls (.allocate d (addr o) false) trivial
    ⟨h.inv.outstanding_eq hslot ▸ hlt, by rintro ⟨⟩⟩
  obtain ⟨chunk, hchunk, halloc⟩ :=
    Store.exists_allocate_of_none d (addr o) false hslot hbound (by rintro ⟨⟩)
  have hcall : (c.call none (.allocate d (addr o) false)).2 =
      ⟨({ c.store with slotCount := c.store.slotCount + 1 } : Store).setMeta c.store.slotCount
          chunk (some (addr o)) d, c.store.slotCount :: c.building, c.live,
        c.store.slotCount :: c.issued⟩ := by
    simp only [State.call, halloc]
  rw [hcall, h.slotCount] at hcalls hinv
  refine ⟨_, hcalls, ?_, rfl, rfl⟩
  rw [View.allocate_of_nil _ hfree]
  refine ⟨hinv, rfl, ?_, ?_, h.liveCount, fun k hk => ?_⟩
  · change Linked _ c.store.freelistHead.slot v.freelist
    rw [hslot, hfree]
    trivial
  · rw [h.slotCount] at hbound hchunk
    have hslots : Holds addr { c.store with slotCount := v.slotCount + 1 } v.slots :=
      h.slots.of_chunks rfl
    exact hslots.setMeta hbound hchunk d o
  · rcases Nat.lt_succ_iff_lt_or_eq.mp hk with hk | rfl
    · exact List.mem_cons_of_mem _ (h.issued k hk)
    · exact List.mem_cons_self

/-- An allocation that has room. -/
theorem allocate (h : Represents addr c v) (d : DescriptorId) (o : ObjectId)
    (hroom : v.freelist ≠ [] ∨ v.slotCount < kChunkSize * kMaxChunks) :
    ∃ c', Calls c c' ∧ Represents addr c' (v.allocate d (some o)) ∧
      c'.building = v.next :: c.building ∧ c'.live = c.live := by
  cases hfree : v.freelist with
  | cons j rest =>
    have hnext : v.next = j := by rw [View.next, hfree, List.headD_cons]
    exact hnext ▸ h.allocate_of_cons hfree d o
  | nil =>
    have hnext : v.next = v.slotCount := by rw [View.next, hfree, List.headD_nil]
    exact hnext ▸ h.allocate_of_nil hfree (hroom.resolve_left fun hne => hne hfree) d o

/-- A counter is written. -/
theorem setRefcount (h : Represents addr c v) {chunk : Chunk}
    (hchunk : c.store.chunkOf i = some chunk) {n r : ℕ} {building live : List SlotId}
    (hinv : Inv ⟨{ c.store.setChunk i { chunk with
      refcounts := update chunk.refcounts (i % kChunkSize) r } with liveSlotCount := n },
        building, live, c.issued⟩) (hlive : n = live.length) :
    Represents addr ⟨{ c.store.setChunk i { chunk with
      refcounts := update chunk.refcounts (i % kChunkSize) r } with liveSlotCount := n },
        building, live, c.issued⟩ (v.setSlot i { v.slots i with refcount := r }) where
  inv := hinv
  slotCount := h.slotCount
  freelist := by
    have hnext : ({ c.store.setChunk i { chunk with
        refcounts := update chunk.refcounts (i % kChunkSize) r } with liveSlotCount := n } :
          Store).nextFree = c.store.nextFree := Store.nextFree_setChunk hchunk rfl
    rw [hnext]
    exact h.freelist
  slots := by
    have hbase : (c.store.chunkOf i).getD {} = chunk := by rw [hchunk, Option.getD_some]
    have hmetas : chunk.metas = update chunk.metas (i % kChunkSize) (c.store.slotMetaAt i) := by
      rw [Store.slotMetaAt, Store.fieldAt, hbase, update_eq_self]
    have hslots : Holds addr (c.store.setChunk i { chunk with
        refcounts := update chunk.refcounts (i % kChunkSize) r })
          (update v.slots i { v.slots i with refcount := r }) :=
      h.slots.setChunk (Store.lt_of_chunkOf hchunk) hbase rfl hmetas (h.slots.descId i)
        (h.slots.memory i)
    exact hslots.of_chunks rfl
  liveCount := hlive
  issued := h.issued

/-- A slot that was built becomes live. -/
theorem activate (h : Represents addr c v) (hi : i ∈ c.building) :
    ∃ c', Calls c c' ∧ Represents addr c' (v.activate i) ∧ c'.building = c.building.erase i ∧
      c'.live = i :: c.live := by
  obtain ⟨hcalls, hinv⟩ := h.inv.calls (.activate i) hi trivial
  obtain ⟨chunk, hchunk⟩ := h.exists_chunk (h.lt_of_held (List.mem_append_left _ hi))
  simp only [State.call, State.setStore, Store.activate, Store.access, hchunk] at hcalls hinv
  have hlt : c.live.length + 1 < 2 ^ 32 := hinv.length_live_lt
  refine ⟨_, hcalls, h.setRefcount hchunk hinv ?_, rfl, rfl⟩
  rw [h.liveCount, Nat.mod_eq_of_lt hlt, List.length_cons]

/-- The counter of a slot that was returned once goes up or down. -/
theorem count (h : Represents addr c v) (hi : i < v.slotCount) {n : ℕ}
    (hn : n = 1 ∨ n = 2 ^ 32 - 1) :
    ∃ c', Calls c c' ∧ Represents addr c' (v.count i n) ∧ c'.building = c.building ∧
      c'.live = c.live := by
  obtain ⟨chunk, hchunk⟩ := h.exists_chunk hi
  have hrefcount : chunk.refcounts (i % kChunkSize) = (v.slots i).refcount := by
    rw [← h.slots.refcount, Store.refcountAt, Store.fieldAt, hchunk, Option.getD_some]
  have hcount : ∀ call : Call, (c.call none call).2 =
      { c with store := (c.store.count i n).2 } → c.Allowed call → c.Room call →
        ∃ c', Calls c c' ∧ Represents addr c' (v.count i n) ∧ c'.building = c.building ∧
          c'.live = c.live := by
    intro call hcall hallowed hroom
    obtain ⟨hcalls, hinv⟩ := h.inv.calls call hallowed hroom
    rw [hcall] at hcalls hinv
    simp only [Store.count, Store.access, hchunk, hrefcount] at hcalls hinv
    exact ⟨_, hcalls, h.setRefcount hchunk hinv h.liveCount, rfl, rfl⟩
  rcases hn with rfl | rfl
  · exact hcount (.retain i) rfl (h.issued i hi) trivial
  · exact hcount (.releaseAcquire i) rfl (h.issued i hi) trivial

/-- `takeSlotMetaForDestruction` only takes the object out of the slot. -/
theorem clear (h : Represents addr c v) (i : SlotId) : Represents addr c (v.clear i) := by
  refine ⟨h.inv, h.slotCount, h.freelist, ⟨fun j => ?_, fun j => ?_, fun j o ho => ?_⟩, h.liveCount,
    h.issued⟩
  · rw [h.slots.refcount, View.clear_slots, update_apply]
    split_ifs with hj
    · rw [hj]
    · rfl
  · rw [h.slots.descId, View.clear_slots, update_apply]
    split_ifs with hj
    · rw [hj]
    · rfl
  · rw [View.clear_slots, update_apply] at ho
    split_ifs at ho
    exact h.slots.memory j o ho

/-- A slot is pushed onto the free list. -/
theorem push (h : Represents addr c v) {chunk : Chunk} (hchunk : c.store.chunkOf i = some chunk)
    (hfree : i ∉ v.freelist) {g : UInt32} {n : ℕ} {building live : List SlotId}
    (hinv : Inv ⟨{ c.store.push i chunk g with liveSlotCount := n }, building, live, c.issued⟩)
    (hlive : n = live.length) :
    Represents addr ⟨{ c.store.push i chunk g with liveSlotCount := n }, building, live, c.issued⟩
      (v.push i) where
  inv := hinv
  slotCount := h.slotCount
  freelist := by
    have hnext : ({ c.store.push i chunk g with liveSlotCount := n } : Store).nextFree =
        update c.store.nextFree i c.store.freelistHead.slot := Store.nextFree_push hchunk g
    refine ⟨rfl, ?_⟩
    rw [hnext, update_self]
    refine h.freelist.congr fun j hj => ?_
    have hne : j ≠ i := fun he => hfree (he ▸ hj)
    exact update_of_ne hne ..
  slots := by
    have hbase : (c.store.chunkOf i).getD {} = chunk := by rw [hchunk, Option.getD_some]
    have hmeta : chunk.metas (i % kChunkSize) = c.store.slotMetaAt i := by
      rw [Store.slotMetaAt, Store.fieldAt, hbase]
    have hslots : Holds addr (c.store.setChunk i { chunk with
        metas := update chunk.metas (i % kChunkSize) (none, (chunk.metas (i % kChunkSize)).2)
        generation := update chunk.generation (i % kChunkSize) g
        nextFree := update chunk.nextFree (i % kChunkSize) c.store.freelistHead.slot })
          (update v.slots i { v.slots i with memory := none }) := by
      have hrefcounts := h.slots.refcounts_eq hbase
      refine h.slots.setChunk (Store.lt_of_chunkOf hchunk) hbase hrefcounts rfl ?_
        (by rintro _ ⟨⟩)
      rw [hmeta]
      exact h.slots.descId i
    exact hslots.of_chunks rfl
  liveCount := hlive
  issued := h.issued

/-- A slot that was built is given back. -/
theorem reclaim (h : Represents addr c v) (hi : i ∈ c.building) :
    ∃ c', Calls c c' ∧ Represents addr c' (v.push i) ∧ c'.building = c.building.erase i ∧
      c'.live = c.live := by
  obtain ⟨hcalls, hinv⟩ := h.inv.calls (.reclaim i) hi trivial
  obtain ⟨chunk, hchunk⟩ := h.exists_chunk (h.lt_of_held (List.mem_append_left _ hi))
  simp only [State.call, State.setStore, Store.reclaim, Store.access, hchunk] at hcalls hinv
  exact ⟨_, hcalls, h.push hchunk (h.not_free (List.mem_append_left _ hi)) hinv h.liveCount, rfl,
    rfl⟩

/-- A live slot is given back. -/
theorem reclaimSlot (h : Represents addr c v) (hi : i ∈ c.live) :
    ∃ c', Calls c c' ∧ Represents addr c' (v.push i) ∧ c'.building = c.building ∧
      c'.live = c.live.erase i := by
  obtain ⟨hcalls, hinv⟩ := h.inv.calls (.reclaimSlot i) hi trivial
  obtain ⟨chunk, hchunk⟩ := h.exists_chunk (h.lt_of_held (List.mem_append_right _ hi))
  have hlt := h.inv.length_live_lt
  have hpos := List.length_pos_of_mem hi
  simp only [State.call, State.setStore, Store.reclaimSlot, Store.access, hchunk] at hcalls hinv
  refine ⟨_, hcalls, h.push hchunk (h.not_free (List.mem_append_right _ hi)) hinv ?_, rfl, rfl⟩
  rw [h.liveCount, List.length_erase_of_mem hi]
  omega

end Represents

/-! ## Failing allocations -/

/-- How a call ends that would return the slot, or has failed. -/
def outcomeOf (slot : SlotId) : Option Unwinding.Raised → Outcome
  | none => .returned slot
  | some (.failure e) => .raised e
  | some .badAlloc => .badAlloc

/-- An allocation for a resolution ends as the call in chunks does: with the same slot, with the
    error of the configured limit, or without a chunk. -/
theorem Represents.allocate_outcome {u : Unwinding.State} (h : Represents addr c u.view)
    (P : Unwinding.Platform) {fails : Bool}
    (hfails : P.chunkFails u.slotCount = (fails && (c.store.chunkOf u.slotCount).isNone))
    (hroom : u.slotCount < kChunkSize * kMaxChunks) (d : DescriptorId) (o : ObjectId) :
    (c.store.allocate P.maxSlots d (addr o) fails).1 =
      outcomeOf u.nextSlot (u.allocate P d (some o)).failure := by
  have hchain : Linked c.store.nextFree c.store.freelistHead.slot u.freelist := h.freelist
  have hcount : c.store.slotCount = u.slotCount := h.slotCount
  unfold Unwinding.State.allocate Unwinding.State.nextSlot
  cases hfree : u.freelist with
  | cons j rest =>
    rw [hfree] at hchain
    cases hslot : c.store.freelistHead.slot with
    | none =>
      rw [hslot] at hchain
      cases hchain
    | some j' =>
      rw [hslot] at hchain
      obtain ⟨rfl, -⟩ := hchain
      obtain ⟨chunk, hchunk, -, -⟩ := h.inv.pop hslot (addr o) d
      simp only [Store.allocate, hslot, Store.access, hchunk]
      rfl
  | nil =>
    rw [hfree] at hchain
    have hslot : c.store.freelistHead.slot = none := by
      cases hslot : c.store.freelistHead.slot with
      | none => rfl
      | some j =>
        rw [hslot] at hchain
        cases hchain
    have hbound : u.slotCount / kChunkSize < kMaxChunks := Nat.div_lt_of_lt_mul hroom
    rw [Store.chunkOf, if_pos hbound] at hfails
    simp only [Store.allocate, hslot, hcount, ge_iff_le, hbound, if_true]
    by_cases hlimit : (P.maxSlots.any fun x => decide (x ≤ u.slotCount)) = true
    · rw [if_pos hlimit, if_pos hlimit]
      rfl
    · rw [if_neg hlimit, if_neg hlimit]
      -- The chunk is there, or can be had, or not.
      cases hchunk : c.store.chunks (u.slotCount / kChunkSize) with
      | some chunk =>
        rw [hchunk, Option.isNone_some, Bool.and_false] at hfails
        rw [hfails]
        rfl
      | none =>
        rw [hchunk, Option.isNone_none, Bool.and_true] at hfails
        rw [hfails]
        cases fails <;> rfl

end Ctorium.Capacity
