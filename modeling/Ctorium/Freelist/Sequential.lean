import Ctorium.Prototype.Chunks

/-!
# The free list of one thread

In `Capacity` the calls on a store run one after another, and the free list lies in its chunks. In
`Freelist` threads interleave the atomic steps of these calls. Here a thread makes the calls of a
run of `Capacity` alone: each of them is a run of its atomic steps, in which no compare-and-swap
fails, and leads to the free list that the store in chunks has.

* `run_allocate`, `run_push`, `run_call`: the steps of the calls.
* `reachable_sequential`: what a run of safe calls leaves is a state of the free list that the
  steps of one thread reach.
-/

namespace Ctorium.Freelist

open Function
open Capacity (Chunk)

variable {t : ThreadId} {n : ℕ} {c c' : Capacity.State} {slot : SlotId}

/-- The free list of a store whose calls are all made by the thread, between two of them. -/
def sequential (t : ThreadId) (c : Capacity.State) (version : ℕ) : State where
  head := c.store.freelistHead
  nextFree := c.store.fieldAt Chunk.nextFree
  generation := c.store.fieldAt Chunk.generation
  slotCount := c.store.slotCount
  live := c.live
  threads := update (fun _ => {}) t ⟨c.building, .idle⟩
  version := version

theorem sequential_self : (sequential t c n).threads t = ⟨c.building, .idle⟩ := by
  simp [sequential]

theorem sequential_initial : sequential t {} 0 = initial := by
  have hnone : ∀ i, ({} : Capacity.Store).chunkOf i = none := fun i => ite_self none
  have hfield : ∀ {β : Type} (field : Chunk → ℕ → β) (b : β), (∀ k, field {} k = b) →
      ({} : Capacity.Store).fieldAt field = fun _ => b := by
    intro β field b hb
    funext i
    rw [Capacity.Store.fieldAt, hnone, Option.getD_none, hb]
  have hthreads : update (fun _ => ({} : Thread)) t {} = fun _ => {} := by simp
  simp only [sequential, initial, hfield Chunk.nextFree (some 0) fun _ => rfl,
    hfield Chunk.generation 0 fun _ => rfl, hthreads]

variable {f : State} {owned : List SlotId} {generation : UInt32}

/-- A free list that agrees with the store in chunks, whose slots the thread holds. -/
theorem eq_sequential (hhead : f.head = c.store.freelistHead)
    (hnextFree : f.nextFree = c.store.fieldAt Chunk.nextFree)
    (hgeneration : f.generation = c.store.fieldAt Chunk.generation)
    (hslotCount : f.slotCount = c.store.slotCount) (hlive : f.live = c.live)
    (hthreads : f.threads = update (fun _ => {}) t ⟨c.building, .idle⟩) :
    f = sequential t c f.version := by
  obtain ⟨head, nextFree, generation, slotCount, live, threads, version⟩ := f
  subst hhead hnextFree hgeneration hslotCount hlive hthreads
  rfl

/-! ## The steps of the calls -/

/-- A thread loads the head, stores it as the successor of the slot and swaps. -/
theorem run_push (hf : f.threads t = ⟨owned, .pushLoad slot generation⟩) :
    machine.run f [⟨t, .advance false⟩, ⟨t, .advance false⟩, ⟨t, .advance false⟩] =
      some { f with
        head := ⟨generation, some slot⟩
        nextFree := update f.nextFree slot f.head.slot
        threads := update f.threads t ⟨owned, .idle⟩
        version := f.version + 1 } := by
  simp [machine, step, hf, State.setPc, State.setThread, State.pushCas]

/-- A thread loads the head and its successor and swaps. -/
theorem run_pop (hf : f.threads t = ⟨owned, .idle⟩) (hslot : f.head.slot = some slot) :
    machine.run f [⟨t, .allocate⟩, ⟨t, .advance false⟩, ⟨t, .advance false⟩] =
      some { f with
        head := ⟨0, f.nextFree slot⟩
        threads := update f.threads t ⟨slot :: owned, .idle⟩
        version := f.version + 1 } := by
  have hhead : f.head = ⟨f.head.generation, some slot⟩ := by rw [← hslot]
  simp [machine, step, hf, State.popLoop, hslot, State.setPc, State.setThread, State.popCas,
    ← hhead]

/-- A thread finds the free list empty and takes the next slot. -/
theorem run_grow (hf : f.threads t = ⟨owned, .idle⟩) (hslot : f.head.slot = none)
    (hroom : f.slotCount / kChunkSize < kMaxChunks) :
    machine.run f [⟨t, .allocate⟩, ⟨t, .advance false⟩] =
      some { f with
        slotCount := f.slotCount + 1
        threads := update f.threads t ⟨f.slotCount :: owned, .idle⟩ } := by
  simp [machine, step, hf, State.popLoop, hslot, State.setPc, State.setThread, State.grow, hroom]

/-- A slot that the thread owns becomes live. -/
theorem run_activate (hf : f.threads t = ⟨owned, .idle⟩) (hslot : slot ∈ owned) :
    machine.run f [⟨t, .activate slot⟩] =
      some { f with
        live := slot :: f.live
        threads := update f.threads t ⟨owned.erase slot, .idle⟩ } := by
  simp [machine, step, hf, hslot, State.activate, State.setThread]

/-- The steps of a push. -/
def pushing (t : ThreadId) : List Action :=
  [⟨t, .advance false⟩, ⟨t, .advance false⟩, ⟨t, .advance false⟩]

/-- A slot that the thread owns is pushed with the generation that it has. -/
theorem run_reclaim (hf : f.threads t = ⟨owned, .idle⟩) (hslot : slot ∈ owned) :
    machine.run f (⟨t, .reclaim slot⟩ :: pushing t) =
      some { f with
        head := ⟨f.generation slot, some slot⟩
        nextFree := update f.nextFree slot f.head.slot
        threads := update f.threads t ⟨owned.erase slot, .idle⟩
        version := f.version + 1 } := by
  have hstep : machine.step f ⟨t, .reclaim slot⟩ = some (f.reclaim t slot) := by
    simp [machine, step, hf, hslot]
  have hpc : (f.reclaim t slot).threads t =
      ⟨owned.erase slot, .pushLoad slot (f.generation slot)⟩ := by
    simp [State.reclaim, State.setThread, hf]
  rw [Machine.run_cons, hstep, Option.bind_some, pushing, run_push hpc]
  simp [State.reclaim, State.setThread]

/-- A live slot is pushed with the next generation. -/
theorem run_reclaimSlot (hf : f.threads t = ⟨owned, .idle⟩) (hslot : slot ∈ f.live) :
    machine.run f (⟨t, .reclaimSlot slot⟩ :: pushing t) =
      some { f with
        head := ⟨f.generation slot + 1, some slot⟩
        nextFree := update f.nextFree slot f.head.slot
        generation := update f.generation slot (f.generation slot + 1)
        live := f.live.erase slot
        threads := update f.threads t ⟨owned, .idle⟩
        version := f.version + 1 } := by
  have hstep : machine.step f ⟨t, .reclaimSlot slot⟩ = some (f.reclaimSlot t slot) := by
    simp [machine, step, hf, hslot]
  have hpc : (f.reclaimSlot t slot).threads t =
      ⟨owned, .pushLoad slot (f.generation slot + 1)⟩ := by
    simp [State.reclaimSlot, State.setPc, State.setThread, hf]
  rw [Machine.run_cons, hstep, Option.bind_some, pushing, run_push hpc]
  simp [State.reclaimSlot, State.setPc, State.setThread]

/-! ## The calls -/

section Calls

variable {store : Capacity.Store} {chunk : Chunk} {call : Capacity.Call}

/-- The free list after a push, which writes the successor and the generation of the slot. -/
theorem fieldAt_push (hchunk : store.chunkOf slot = some chunk) (g : UInt32) :
    (store.push slot chunk g).fieldAt Chunk.nextFree =
        update (store.fieldAt Chunk.nextFree) slot store.freelistHead.slot ∧
      (store.push slot chunk g).fieldAt Chunk.generation =
        update (store.fieldAt Chunk.generation) slot g := by
  have hslot := Capacity.Store.lt_of_chunkOf hchunk
  have hbase : (store.chunkOf slot).getD {} = chunk := by rw [hchunk, Option.getD_some]
  refine ⟨Capacity.Store.fieldAt_setChunk_of_update hslot ?_,
    Capacity.Store.fieldAt_setChunk_of_update hslot ?_⟩
  · rw [hbase]
  · rw [hbase]

/-- What writes neither the successor nor the generation leaves the free list. -/
theorem fieldAt_setChunk (chunk' : Chunk) (hchunk : (store.chunkOf slot).getD {} = chunk)
    (hslot : slot / kChunkSize < kMaxChunks) (hnext : chunk'.nextFree = chunk.nextFree)
    (hgeneration : chunk'.generation = chunk.generation) :
    (store.setChunk slot chunk').fieldAt Chunk.nextFree = store.fieldAt Chunk.nextFree ∧
      (store.setChunk slot chunk').fieldAt Chunk.generation = store.fieldAt Chunk.generation :=
  ⟨Capacity.Store.fieldAt_setChunk_of_eq hslot (hchunk ▸ hnext),
    Capacity.Store.fieldAt_setChunk_of_eq hslot (hchunk ▸ hgeneration)⟩

theorem fieldAt_liveSlotCount {β : Type} {field : Chunk → ℕ → β} (m : ℕ) :
    ({ store with liveSlotCount := m } : Capacity.Store).fieldAt field = store.fieldAt field := rfl

/-- The free list after an allocation, which has taken a free slot or the next one. -/
theorem exists_run_allocate (hc : Capacity.Inv c) {d : DescriptorId} {mem : Addr} {fails : Bool}
    (hroom : c.Room (.allocate d mem fails)) :
    ∃ acts n', machine.run (sequential t c n) acts =
      some (sequential t (c.call none (.allocate d mem fails)).2 n') := by
  cases hslot : c.store.freelistHead.slot with
  | some slot =>
    obtain ⟨chunk, hchunk, -, -⟩ := hc.pop hslot mem d
    have hbase : (c.store.chunkOf slot).getD {} = chunk := by rw [hchunk, Option.getD_some]
    have hnext : (sequential t c n).nextFree slot = chunk.nextFree (slot % kChunkSize) := by
      change c.store.fieldAt Chunk.nextFree slot = _
      rw [Capacity.Store.fieldAt, hbase]
    obtain ⟨hnextFree, hgeneration⟩ := fieldAt_setChunk { chunk with
      metas := update chunk.metas (slot % kChunkSize) (some mem, d) } hbase
        (Capacity.Store.lt_of_chunkOf hchunk) rfl rfl
    refine ⟨_, _, (run_pop sequential_self hslot).trans
      (congrArg some (eq_sequential ?_ ?_ ?_ ?_ ?_ ?_))⟩
    all_goals simp only [Capacity.State.call, Capacity.Store.allocate, hslot,
      Capacity.Store.access, hchunk]
    · rw [hnext]
    · exact hnextFree.symm
    · exact hgeneration.symm
    · rfl
    · rfl
    · simp [sequential]
  | none =>
    have hlt : c.store.slotCount < kChunkSize * kMaxChunks := hc.outstanding_eq hslot ▸ hroom.1
    have hbound : c.store.slotCount / kChunkSize < kMaxChunks := Nat.div_lt_of_lt_mul hlt
    have hthere : fails = true → (c.store.chunkOf c.store.slotCount).isSome := fun hfails =>
      (hroom.2 hfails).resolve_left (by rw [hslot]; exact Bool.false_ne_true)
    obtain ⟨chunk, hbase, halloc⟩ : ∃ chunk, (c.store.chunkOf c.store.slotCount).getD {} = chunk ∧
        c.store.allocate none d mem fails = (.returned c.store.slotCount,
          ({ c.store with slotCount := c.store.slotCount + 1 } : Capacity.Store).setMeta
            c.store.slotCount chunk (some mem) d) :=
      Capacity.Store.exists_allocate_of_none d mem fails hslot hbound hthere
    obtain ⟨hnextFree, hgeneration⟩ := fieldAt_setChunk { chunk with
      metas := update chunk.metas (c.store.slotCount % kChunkSize) (some mem, d) } hbase hbound
        rfl rfl
    refine ⟨_, _, (run_grow sequential_self hslot hbound).trans
      (congrArg some (eq_sequential ?_ ?_ ?_ ?_ ?_ ?_))⟩
    all_goals simp only [Capacity.State.call, halloc]
    · rfl
    · exact hnextFree.symm
    · exact hgeneration.symm
    · rfl
    · rfl
    · simp [sequential]

/-- A counter is no part of the free list. -/
theorem sequential_count (hc : Capacity.Inv c) {id : SlotId} (hid : id ∈ c.issued) (k : ℕ) :
    sequential t { c with store := (c.store.count id k).2 } n = sequential t c n := by
  obtain ⟨chunk, hchunk⟩ := hc.exists_chunk (hc.issued id hid)
  have hbase : (c.store.chunkOf id).getD {} = chunk := by rw [hchunk, Option.getD_some]
  obtain ⟨hnextFree, hgeneration⟩ := fieldAt_setChunk { chunk with
    refcounts := update chunk.refcounts (id % kChunkSize)
      ((chunk.refcounts (id % kChunkSize) + k) % 2 ^ 32) } hbase
        (Capacity.Store.lt_of_chunkOf hchunk) rfl rfl
  simp only [Capacity.Store.count, Capacity.Store.access, hchunk, sequential, hnextFree,
    hgeneration]
  rfl

/-- Every call is a run of its atomic steps. -/
theorem exists_run (hc : Capacity.Inv c) (hallowed : c.Allowed call) (hroom : c.Room call) :
    ∃ acts n', machine.run (sequential t c n) acts =
      some (sequential t (c.call none call).2 n') := by
  cases call with
  | allocate d mem fails => exact exists_run_allocate hc hroom
  | activate id =>
    obtain ⟨chunk, hchunk⟩ := hc.exists_chunk (hc.lt_of_mem (List.mem_append_left _ hallowed))
    have hbase : (c.store.chunkOf id).getD {} = chunk := by rw [hchunk, Option.getD_some]
    obtain ⟨hnextFree, hgeneration⟩ := fieldAt_setChunk { chunk with
      refcounts := update chunk.refcounts (id % kChunkSize) 1 } hbase
        (Capacity.Store.lt_of_chunkOf hchunk) rfl rfl
    refine ⟨_, _, (run_activate sequential_self hallowed).trans
      (congrArg some (eq_sequential ?_ ?_ ?_ ?_ ?_ ?_))⟩
    all_goals simp only [Capacity.State.call, Capacity.State.setStore, Capacity.Store.activate,
      Capacity.Store.access, hchunk]
    · rfl
    · exact hnextFree.symm
    · exact hgeneration.symm
    · rfl
    · rfl
    · simp [sequential]
  | reclaim id =>
    obtain ⟨chunk, hchunk⟩ := hc.exists_chunk (hc.lt_of_mem (List.mem_append_left _ hallowed))
    have hgen : c.store.fieldAt Chunk.generation id = chunk.generation (id % kChunkSize) := by
      rw [Capacity.Store.fieldAt, hchunk, Option.getD_some]
    obtain ⟨hnextFree, hgeneration⟩ := fieldAt_push hchunk (chunk.generation (id % kChunkSize))
    refine ⟨_, _, (run_reclaim sequential_self hallowed).trans
      (congrArg some (eq_sequential ?_ ?_ ?_ ?_ ?_ ?_))⟩
    all_goals simp only [Capacity.State.call, Capacity.State.setStore, Capacity.Store.reclaim,
      Capacity.Store.access, hchunk]
    · exact congrArg (Head.mk · (some id)) hgen
    · exact hnextFree.symm
    · rw [hgeneration, ← hgen, update_eq_self]
      rfl
    · rfl
    · rfl
    · simp [sequential]
  | retain id =>
    refine ⟨[], n, ?_⟩
    rw [Machine.run_nil, Capacity.State.call, Capacity.State.setStore, Capacity.Store.retain,
      sequential_count hc hallowed]
  | releaseAcquire id =>
    refine ⟨[], n, ?_⟩
    rw [Machine.run_nil, Capacity.State.call, Capacity.State.setStore,
      Capacity.Store.releaseAcquire, sequential_count hc hallowed]
  | reclaimSlot id =>
    obtain ⟨chunk, hchunk⟩ := hc.exists_chunk (hc.lt_of_mem (List.mem_append_right _ hallowed))
    have hgen : c.store.fieldAt Chunk.generation id = chunk.generation (id % kChunkSize) := by
      rw [Capacity.Store.fieldAt, hchunk, Option.getD_some]
    obtain ⟨hnextFree, hgeneration⟩ :=
      fieldAt_push hchunk (chunk.generation (id % kChunkSize) + 1)
    refine ⟨_, _, (run_reclaimSlot sequential_self hallowed).trans
      (congrArg some (eq_sequential ?_ ?_ ?_ ?_ ?_ ?_))⟩
    all_goals simp only [Capacity.State.call, Capacity.State.setStore, Capacity.Store.reclaimSlot,
      Capacity.Store.access, hchunk]
    · exact congrArg (fun g => Head.mk (g + 1) (some id)) hgen
    · rw [fieldAt_liveSlotCount, hnextFree]
      rfl
    · rw [fieldAt_liveSlotCount, hgeneration, ← hgen]
      rfl
    · rfl
    · rfl
    · simp [sequential]

end Calls

/-! ## The result -/

/-- What a run of safe calls leaves is a state of the free list that one thread reaches alone. -/
theorem reachable_sequential (t : ThreadId)
    (hc : (Capacity.machine none).ReachableBy (fun c call => c.Safe none call) c) :
    ∃ n, machine.Reachable (sequential t c n) := by
  have hstep : ∀ c call c' f, Capacity.Inv c ∧ (∃ n, f = sequential t c n) → c.Safe none call →
      (Capacity.machine none).step c call = some c' →
        ∃ f', machine.Leads (fun _ _ => True) f f' ∧
          Capacity.Inv c' ∧ ∃ n, f' = sequential t c' n := by
    rintro c call c' f ⟨hinv, n, rfl⟩ hsafe hs
    obtain ⟨hallowed, ⟨⟩⟩ := Option.ite_none_right_eq_some.mp hs
    have hroom := hinv.room_of_safe hsafe
    obtain ⟨acts, n', hrun⟩ := exists_run (t := t) (n := n) hinv hallowed hroom
    exact ⟨_, .of_run hrun, (hinv.step hallowed hroom).1, n', rfl⟩
  have hinit : ∀ c, (Capacity.machine none).Init c →
      ∃ f, machine.Init f ∧ Capacity.Inv c ∧ ∃ n, f = sequential t c n := by
    rintro c ⟨⟩
    exact ⟨initial, rfl, Capacity.Inv.initial, 0, sequential_initial.symm⟩
  obtain ⟨f, hf, -, n, rfl⟩ := hc.simulation hinit hstep
  exact ⟨n, hf⟩

end Ctorium.Freelist
