import Ctorium.Prototype.Chunks
import Ctorium.Prototype.Exact

/-!
# The store behind the handles

The operations of `Prototype` are on handles, and what they do to the store is on its view. Here
every careful operation is followed by calls of `Capacity` on a store in chunks: an allocation by
one, a copy by `retain`, a release by `releaseAcquire` and, for every bean that goes with it,
`reclaimSlot`.

* `Stored.step`: the calls of one operation, among them all that its releases lead to.
* `stored_of_careful`: every state that careful operations reach has a store in chunks behind it,
  which safe calls have led to. So the conditions of `Careful` are enough for the store, too.
-/

namespace Ctorium.Prototype

open Function State
open Capacity (Calls Represents)
open Freelist (kChunkSize kMaxChunks)

variable {addr : ObjectId → Addr} {c c' : Capacity.State} {s s' : State}
  {stale : Option CellId} {ws ws' : List Work} {i : SlotId} {o : ObjectId} {h : Handle}
  {a b : CellId}

/-! ## The slots of objects -/

/-- The slot has an object in this state. -/
def HasObject (memory : SlotId → Option ObjectId) (state : ObjectId → ObjectState)
    (st : ObjectState) (i : SlotId) : Prop := ∃ o, memory i = some o ∧ state o = st

section HasObject

variable {memory : SlotId → Option ObjectId} {state : ObjectId → ObjectState} {slotCount : ℕ}
  {freelist : List SlotId} {st st₀ : ObjectState} {j : SlotId}

/-- A new object gets a slot. -/
theorem hasObject_put (hnone : memory i = none) (hnew : ∀ j, memory j ≠ some o) :
    HasObject (update memory i (some o)) (update state o st₀) st j ↔
      j = i ∧ st₀ = st ∨ HasObject memory state st j := by
  by_cases hj : j = i
  · subst hj
    simp [HasObject, hnone]
  · have hne : ∀ {o'}, memory j = some o' → o' ≠ o := fun hm he => hnew j (he ▸ hm)
    simp only [HasObject, update_of_ne hj, hj, false_and, false_or]
    refine exists_congr fun o' => and_congr_right fun hm => ?_
    rw [update_of_ne (hne hm)]

/-- The object of a slot changes its state. -/
theorem hasObject_change (hs : Slots memory slotCount freelist state ws)
    (hmem : memory i = some o) :
    HasObject memory (update state o st₀) st j ↔
      j = i ∧ st₀ = st ∨ j ≠ i ∧ HasObject memory state st j := by
  by_cases hj : j = i
  · subst hj
    simp [HasObject, hmem]
  · simp only [HasObject, hj, false_and, false_or, ne_eq, not_false_eq_true, true_and]
    refine exists_congr fun o' => and_congr_right fun hm => ?_
    rw [update_of_ne (hs.ne_of_ne hmem hm hj)]

/-- The object of a slot goes. -/
theorem hasObject_clear (hs : Slots memory slotCount freelist state ws) (hmem : memory i = some o) :
    HasObject (update memory i none) (update state o st₀) st j ↔
      j ≠ i ∧ HasObject memory state st j := by
  by_cases hj : j = i
  · subst hj
    simp [HasObject]
  · simp only [HasObject, update_of_ne hj, hj, ne_eq, not_false_eq_true, true_and]
    refine exists_congr fun o' => and_congr_right fun hm => ?_
    rw [update_of_ne (hs.ne_of_ne hmem hm hj)]

end HasObject

/-! ## The relation -/

/-- The store in chunks is the one that the handles have, in the middle of an operation too: the
    slots under construction are those of reserved objects, the live ones those of active objects
    and those that a release is about to give back. -/
structure Stored (addr : ObjectId → Addr) (c : Capacity.State) (s : State) (ws : List Work) :
    Prop where
  represents : Represents addr c s.view
  building : ∀ i, i ∈ c.building ↔ HasObject s.memoryAt s.stateOf .reserved i
  live : ∀ i, i ∈ c.live ↔ HasObject s.memoryAt s.stateOf .active i ∨ .reclaimSlot i ∈ ws

namespace Stored

theorem initial : Stored addr {} {} [] where
  represents := Represents.initial
  building i := by simp [HasObject, State.memoryAt]
  live i := by simp [HasObject, State.memoryAt]

/-- What does not touch the store. -/
theorem congr (h : Stored addr c s ws) (hview : s'.view = s.view) (hstate : s'.stateOf = s.stateOf)
    (hws : ∀ i, .reclaimSlot i ∈ ws' ↔ .reclaimSlot i ∈ ws) : Stored addr c s' ws' := by
  have hmemory : s'.memoryAt = s.memoryAt :=
    congrArg (fun (v : View) i => (v.slots i).memory) hview
  refine ⟨hview ▸ h.represents, fun i => ?_, fun i => ?_⟩
  · rw [hmemory, hstate]
    exact h.building i
  · rw [hmemory, hstate, hws]
    exact h.live i

/-! ## Counting -/

theorem retainIfPrototype_stateOf : (s.retainIfPrototype h).stateOf = s.stateOf := by
  unfold State.retainIfPrototype
  split <;> rfl

/-- A further handle to a bean that is there. -/
theorem retain (h : Stored addr c s ws) (hlt : i < s.slotCount) :
    ∃ c', Calls c c' ∧ Stored addr c' (s.retain i) ws := by
  obtain ⟨c', hcalls, hrep, hbuilding, hlive⟩ := h.represents.count hlt (.inl rfl)
  refine ⟨c', hcalls, hrep, fun j => ?_, fun j => ?_⟩
  · rw [hbuilding, State.retain_memoryAt]
    exact h.building j
  · rw [hlive, State.retain_memoryAt]
    exact h.live j

theorem retainIfPrototype (hs : Stored addr c s ws) (hinv : Inv stale none s ws)
    (ht : Tracked s h) : ∃ c', Calls c c' ∧ Stored addr c' (s.retainIfPrototype h) ws := by
  unfold State.retainIfPrototype
  split
  · rename_i hproto
    obtain ⟨o, -, hmem, -⟩ := ht hproto
    exact hs.retain (hinv.slots.lt _ o hmem)
  · exact ⟨c, .refl c, hs⟩

/-! ## Releases -/

/-- A handle to an active bean is released. The slot of the last one stays live until it is
    reclaimed. -/
theorem release (h : Stored addr c s ws) (hinv : Inv stale (some i) s ws)
    (hmem : s.memoryAt i = some o) (hactive : s.stateOf o = .active) :
    ∃ c', Calls c c' ∧ Stored addr c' (s.release i).1 ((s.release i).2 ++ ws) := by
  obtain ⟨c', hcalls, hrep, hbuilding, hlive⟩ :=
    h.represents.count (hinv.slots.lt i o hmem) (.inr rfl)
  have hasActive : HasObject s.memoryAt s.stateOf .active i := ⟨o, hmem, hactive⟩
  have hnot : ¬HasObject s.memoryAt s.stateOf .reserved i := by
    rintro ⟨o', hmem', hreserved⟩
    obtain rfl := Option.some.inj (hmem.symm.trans hmem')
    rw [hactive] at hreserved
    cases hreserved
  refine ⟨c', hcalls, ?_⟩
  by_cases heq : (s.slots i).refcount = 1
  · have hlast := State.release_last hmem heq
    have hstate : (s.release i).1.stateOf = update s.stateOf o .destroyed := by
      funext o'
      by_cases ho : o' = o
      · subst ho
        simp [State.stateOf, hlast.objects]
      · simp [State.stateOf, hlast.objects, ho]
    refine ⟨?_, fun j => ?_, fun j => ?_⟩
    · rw [view_release, if_pos heq]
      exact hrep.clear i
    · rw [hbuilding, h.building, hlast.memoryAt, hstate, hasObject_clear hinv.slots hmem]
      refine (and_iff_right_of_imp fun hj => ?_).symm
      rintro rfl
      exact hnot hj
    · have hwork : .reclaimSlot j ∈ (s.release i).2 ++ ws ↔ j = i ∨ .reclaimSlot j ∈ ws := by
        simp [hlast.more]
      rw [hlive, h.live, hlast.memoryAt, hstate, hwork, hasObject_clear hinv.slots hmem]
      by_cases hj : j = i
      · simp [hj, hasActive]
      · simp [hj]
  · rw [State.release_not_last heq]
    have hview : (s.setSlot i { s.slots i with
        refcount := ((s.slots i).refcount + (2 ^ 32 - 1)) % 2 ^ 32 }).view =
          s.view.count i (2 ^ 32 - 1) := rfl
    have hmemory : (s.setSlot i { s.slots i with
        refcount := ((s.slots i).refcount + (2 ^ 32 - 1)) % 2 ^ 32 }).memoryAt = s.memoryAt := by
      funext j
      by_cases hj : j = i
      · subst hj
        simp [State.memoryAt, State.setSlot]
      · simp [State.memoryAt, State.setSlot, hj]
    refine ⟨hview ▸ hrep, fun j => ?_, fun j => ?_⟩
    · rw [hbuilding, hmemory]
      exact h.building j
    · rw [hlive, hmemory]
      exact h.live j

/-- A slot that a release has left is given back. -/
theorem reclaimSlot (h : Stored addr c s (.reclaimSlot i :: ws))
    (hinv : Inv stale none s (.reclaimSlot i :: ws)) :
    ∃ c', Calls c c' ∧ Stored addr c' (s.reclaimSlot i) ws := by
  obtain ⟨hnone, -, -⟩ := hinv.slots.work i List.mem_cons_self
  obtain ⟨hnot, -⟩ := List.nodup_cons.mp hinv.nodup
  have hmem : i ∈ c.live := (h.live i).mpr (.inr List.mem_cons_self)
  obtain ⟨c', hcalls, hrep, hbuilding, hlive⟩ := h.represents.reclaimSlot hmem
  have hmemory : (s.reclaimSlot i).memoryAt = s.memoryAt := by
    funext j
    by_cases hj : j = i
    · rw [hj, hnone]
      simp [State.memoryAt, State.reclaimSlot, State.setSlot]
    · simp [State.memoryAt, State.reclaimSlot, State.setSlot, hj]
  refine ⟨c', hcalls, hrep, fun j => ?_, fun j => ?_⟩
  · rw [hbuilding, hmemory]
    exact h.building j
  · rw [hlive, h.represents.inv.live_nodup.mem_erase_iff, h.live, hmemory, List.mem_cons]
    constructor
    · rintro ⟨hne, hact | hw | hw⟩
      · exact .inl hact
      · exact absurd (Work.reclaimSlot.inj hw) hne
      · exact .inr hw
    · rintro (⟨o, hj, hact⟩ | hw)
      · refine ⟨?_, .inl ⟨o, hj, hact⟩⟩
        rintro rfl
        rw [hnone] at hj
        cases hj
      · refine ⟨?_, .inr (.inr hw)⟩
        rintro rfl
        exact hnot hw

/-- An item of work is done. -/
theorem perform {s₀ : State} {w : Work} (h : Stored addr c s (w :: ws))
    (hr : Releasing s₀ stale s (w :: ws)) :
    ∃ c', Calls c c' ∧ Stored addr c' (s.perform w).1 ((s.perform w).2 ++ ws) := by
  cases w with
  | destroyCell b =>
    have hkilled : Stored addr c (s.kill b) ws := h.congr rfl rfl (by simp)
    have hkill := hr.inv.kill
    obtain ⟨halive, hstale⟩ := hr.inv.cells.work b List.mem_cons_self
    rw [State.perform_destroyCell]
    split
    · rename_i hproto
      obtain ⟨o, -, hmem, hactive⟩ := hr.inv.counts.tracked b halive hstale hproto
      rw [Handle.tracking, if_pos hproto] at hkill
      exact hkilled.release hkill hmem hactive
    · exact ⟨c, .refl c, hkilled⟩
  | reclaimSlot i => exact h.reclaimSlot hr.inv

/-- A release comes to its end. -/
theorem drain {s₀ : State} (h : Stored addr c s ws) (hr : Releasing s₀ stale s ws) :
    ∃ c', Calls c c' ∧ Stored addr c' (s.drain ws) [] := by
  -- The invariant of the worklist is carried along with the calls made so far.
  have hdrain : Releasing s₀ stale (s.drain ws) [] ∧
      ∃ c', Calls c c' ∧ Stored addr c' (s.drain ws) [] := by
    refine Worklist.drain_invariant
      (I := fun s ws => Releasing s₀ stale s ws ∧ ∃ c', Calls c c' ∧ Stored addr c' s ws)
      ?_ (fun _ _ _ hI => hI.1.workBound_lt) ⟨hr, c, .refl c, h⟩ (Nat.lt_succ_self _)
    rintro s w ws ⟨hr, c', hcalls, h⟩
    obtain ⟨c'', hcalls', h'⟩ := h.perform hr
    exact ⟨hr.perform, c'', hcalls.trans hcalls', h'⟩
  exact hdrain.2

/-- The handle of a destination is released, with all that follows from it. -/
theorem releaseIfPrototype (h : Stored addr c s []) (hinv : Inv none none s [])
    (hb : (s.cells b).alive) (hspared : Survives s b b) :
    ∃ c', Calls c c' ∧ Stored addr c' (s.releaseIfPrototype (s.cells b).handle) [] := by
  unfold State.releaseIfPrototype
  split
  · rename_i hproto
    have hrel := hinv.releasing hb hspared hproto
    have hstale := hinv.makeStale hb List.not_mem_nil
    obtain ⟨o, -, hmem, hactive⟩ := hinv.tracked hb hproto
    rw [Handle.tracking, if_pos hproto] at hstale
    obtain ⟨c', hcalls, h'⟩ := h.release hstale hmem hactive
    rw [List.append_nil] at h'
    obtain ⟨c'', hcalls', h''⟩ := h'.drain hrel
    exact ⟨c'', hcalls.trans hcalls', h''⟩
  · exact ⟨c, .refl c, h⟩

/-! ## The operations -/

/-- A reference and a cell for a further handle. -/
theorem newCell_retain {owner : Option ObjectId} (hs : Stored addr c s [])
    (hinv : Inv none none s []) (ht : Tracked s h) :
    ∃ c', Calls c c' ∧ Stored addr c' ((s.newCell h owner).retainIfPrototype h) [] := by
  obtain ⟨c', hcalls, h'⟩ := hs.retainIfPrototype hinv ht
  refine ⟨c', hcalls, ?_⟩
  rw [Inv.newCell_comm]
  exact h'.congr view_newCell State.newCell_stateOf fun _ => Iff.rfl

theorem copyAssign (h : Stored addr c s []) (hinv : Inv none none s [])
    (hb : (s.cells b).alive) (ha : (s.cells a).alive) (hcareful : Careful s (.copyAssign b a)) :
    ∃ c', Calls c c' ∧ Stored addr c' (s.copyAssign b a) [] := by
  unfold State.copyAssign
  split
  · exact ⟨c, .refl c, h⟩
  · rename_i hne
    obtain ⟨hsrc, hdst, -⟩ := hcareful.resolve_left hne
    obtain ⟨hrel, hcas⟩ := hinv.releaseIfPrototype hb hdst
    obtain ⟨c', hcalls, h'⟩ := h.releaseIfPrototype hinv hb hdst
    have ha' := hcas.alive_of_survives ha hsrc
    dsimp only
    generalize s.releaseIfPrototype (s.cells b).handle = s' at *
    have ht := hrel.counts.tracked a ha' fun he => hne (Option.some.inj he).symm
    obtain ⟨c'', hcalls', h''⟩ := h'.retainIfPrototype hrel ht
    generalize (s'.cells a).handle = h at *
    refine ⟨c'', hcalls.trans hcalls', h''.congr ?_ ?_ fun _ => Iff.rfl⟩
    · change ((s'.setHandle b h).retainIfPrototype h).view = _
      rw [view_retainIfPrototype, view_retainIfPrototype, view_setHandle]
    · change ((s'.setHandle b h).retainIfPrototype h).stateOf = _
      rw [retainIfPrototype_stateOf, retainIfPrototype_stateOf]
      rfl

theorem moveAssign (h : Stored addr c s []) (hinv : Inv none none s [])
    (hb : (s.cells b).alive) (hcareful : Careful s (.moveAssign b a)) :
    ∃ c', Calls c c' ∧ Stored addr c' (s.moveAssign b a) [] := by
  unfold State.moveAssign
  split
  · exact ⟨c, .refl c, h⟩
  · rename_i hne
    obtain ⟨c', hcalls, h'⟩ := h.releaseIfPrototype hinv hb (hcareful.resolve_left hne).2
    exact ⟨c', hcalls, h'.congr rfl rfl fun _ => Iff.rfl⟩

theorem destroy (h : Stored addr c s []) (hinv : Inv none none s []) (ha : (s.cells a).alive) :
    ∃ c', Calls c c' ∧ Stored addr c' (s.destroy a) [] := by
  obtain ⟨objects, hstate, hdestroy, hunlink⟩ := hinv.exists_destroy_eq ha
  have hrel : Releasing s none _ _ := ⟨hunlink, (by rintro _ ⟨⟩), (by rintro _ ⟨⟩)⟩
  have hunlinked : Stored addr c { s with objects := objects } [.destroyCell a] :=
    h.congr rfl (funext hstate) (by simp)
  rw [hdestroy]
  exact hunlinked.drain hrel

/-! ### Materialization -/

/-- The slot of the next allocation is not in use. -/
theorem memoryAt_next (hinv : Inv none none s []) : s.memoryAt s.view.next = none := by
  cases hfree : s.freelist with
  | cons j rest =>
    have hnext : s.view.next = j := congrArg (List.headD · s.slotCount) hfree
    rw [hnext]
    exact (hinv.slots.free j (by rw [hfree]; exact List.mem_cons_self)).1
  | nil =>
    have hnext : s.view.next = s.slotCount := congrArg (List.headD · s.slotCount) hfree
    rw [hnext]
    exact Option.eq_none_iff_forall_ne_some.mpr fun o hmem =>
      Nat.lt_irrefl _ (hinv.slots.lt _ o hmem)

/-- A bean gets its slot. -/
theorem allocate {t : DescriptorId} (h : Stored addr c s []) (hinv : Inv none none s [])
    (hroom : s.freelist ≠ [] ∨ s.slotCount < kMaxSlots) :
    ∃ c', Calls c c' ∧ Stored addr c' (s.allocate t) [] := by
  obtain ⟨c', hcalls, hrep, hbuilding, hlive⟩ := h.represents.allocate t s.nextObject hroom
  have hmemory : (s.allocate t).memoryAt = update s.memoryAt s.view.next (some s.nextObject) := by
    have hslots : (s.allocate t).slots = _ :=
      (congrArg View.slots view_allocate).trans (View.allocate_slots s.view t (some s.nextObject))
    funext j
    rw [State.memoryAt, hslots, update_apply, update_apply]
    split_ifs <;> rfl
  have hstate : (s.allocate t).stateOf = update s.stateOf s.nextObject .reserved := by
    funext o
    by_cases ho : o = s.nextObject
    · subst ho
      simp [State.stateOf, State.allocate]
    · cases hfree : s.freelist <;>
        simp [State.stateOf, State.allocate, State.allocateSlot, State.setSlot, hfree, ho]
  -- The slot is not in use, and the object is a new one.
  obtain ⟨hnone, hnew⟩ : s.memoryAt s.view.next = none ∧ ∀ j, s.memoryAt j ≠ some s.nextObject := by
    refine ⟨memoryAt_next hinv, fun j hj => ?_⟩
    rcases hinv.slots.object j _ hj with hst | hst <;>
      exact Nat.lt_irrefl _ (hinv.history.lt _ (by rw [hst]; rintro ⟨⟩))
  refine ⟨c', hcalls, view_allocate ▸ hrep, fun j => ?_, fun j => ?_⟩
  · rw [hbuilding, hmemory, hstate, hasObject_put hnone hnew, List.mem_cons, h.building]
    simp
  · rw [hlive, hmemory, hstate, hasObject_put hnone hnew, h.live]
    simp

/-- The slot of a bean whose constructor threw is free again. -/
theorem abandon (h : Stored addr c s []) (hinv : Inv none none s [])
    (hres : s.reservedAt i = some o) : ∃ c', Calls c c' ∧ Stored addr c' (s.abandon i o) [] := by
  obtain ⟨hmem, hreserved⟩ := Inv.of_reservedAt hres
  have hi : i ∈ c.building := (h.building i).mpr ⟨o, hmem, hreserved⟩
  obtain ⟨c', hcalls, hrep, hbuilding, hlive⟩ := h.represents.reclaim hi
  have hmemory : (s.abandon i o).memoryAt = update s.memoryAt i none := by
    funext j
    by_cases hj : j = i
    · subst hj
      simp [State.memoryAt, State.abandon, State.reclaimSlot, State.setSlot]
    · simp [State.memoryAt, State.abandon, State.reclaimSlot, State.setSlot, hj]
  have hstate : (s.abandon i o).stateOf = update s.stateOf o .absent := by
    funext o'
    by_cases ho : o' = o
    · subst ho
      simp [State.stateOf, State.abandon]
    · simp [State.stateOf, State.abandon, ho]
  refine ⟨c', hcalls, hrep, fun j => ?_, fun j => ?_⟩
  · rw [hbuilding, h.represents.inv.building_nodup.mem_erase_iff, h.building, hmemory, hstate,
      hasObject_clear hinv.slots hmem]
  · rw [hlive, h.live, hmemory, hstate, hasObject_clear hinv.slots hmem]
    refine or_congr_left (and_iff_right_of_imp fun hj => ?_).symm
    rintro rfl
    obtain ⟨o', hmem', hactive⟩ := hj
    obtain rfl := Option.some.inj (hmem.symm.trans hmem')
    rw [hreserved] at hactive
    cases hactive

/-- The slot of a bean becomes live. -/
theorem activate {members : List CellId} {returned : Bool} (h : Stored addr c s [])
    (hinv : Inv none none s []) (hres : s.reservedAt i = some o) :
    ∃ c', Calls c c' ∧ Stored addr c' (s.activate i o members returned) [] := by
  obtain ⟨hmem, hreserved⟩ := Inv.of_reservedAt hres
  have hi : i ∈ c.building := (h.building i).mpr ⟨o, hmem, hreserved⟩
  obtain ⟨c', hcalls, hrep, hbuilding, hlive⟩ := h.represents.activate hi
  have hview : (s.activate i o members returned).view = s.view.activate i := view_activate
  have hmemory : (s.activate i o members returned).memoryAt = s.memoryAt := by
    have hslots : (s.activate i o members returned).slots = _ := congrArg View.slots hview
    funext j
    rw [State.memoryAt, hslots, View.activate, View.setSlot_slots, update_apply]
    split_ifs with hj
    · rw [hj]
      rfl
    · rfl
  have hstate : (s.activate i o members returned).stateOf = update s.stateOf o .active := by
    funext o'
    by_cases ho : o' = o
    · subst ho
      cases returned <;> simp [State.stateOf, State.activate, State.newCell]
    · cases returned <;> simp [State.stateOf, State.activate, State.newCell, State.setSlot, ho]
  refine ⟨c', hcalls, hview ▸ hrep, fun j => ?_, fun j => ?_⟩
  · rw [hbuilding, h.represents.inv.building_nodup.mem_erase_iff, h.building, hmemory, hstate,
      hasObject_change hinv.slots hmem]
    simp
  · rw [hlive, List.mem_cons, h.live, hmemory, hstate, hasObject_change hinv.slots hmem]
    by_cases hj : j = i
    · simp [hj]
    · simp [hj]

/-- The calls of an operation. -/
theorem step {act : Action} (h : Stored addr c s []) (hinv : Inv none none s [])
    (hG : Careful s act) (hs : machine.step s act = some s') :
    ∃ c', Calls c c' ∧ Stored addr c' s' [] := by
  change s.step act = some s' at hs
  cases act with
  | allocate t =>
    obtain ⟨hroom, ⟨⟩⟩ := Option.ite_none_right_eq_some.mp hs
    exact h.allocate hinv hroom
  | abandon i =>
    obtain ⟨o, hres, rfl⟩ := Option.map_eq_some_iff.mp hs
    exact h.abandon hinv hres
  | activate i members returned =>
    obtain ⟨-, hs⟩ := Option.ite_none_right_eq_some.mp hs
    obtain ⟨o, hres, rfl⟩ := Option.map_eq_some_iff.mp hs
    exact h.activate hinv hres
  | construct hd owner =>
    obtain ⟨-, ⟨⟩⟩ := Option.ite_none_right_eq_some.mp hs
    exact ⟨c, .refl c, h.congr view_newCell State.newCell_stateOf fun _ => Iff.rfl⟩
  | copy a owner =>
    obtain ⟨⟨ha, -⟩, ⟨⟩⟩ := Option.ite_none_right_eq_some.mp hs
    exact h.newCell_retain hinv (hinv.tracked ha)
  | move a owner =>
    obtain ⟨-, ⟨⟩⟩ := Option.ite_none_right_eq_some.mp hs
    have hstate : (s.newCell (s.cells a).handle owner).stateOf = s.stateOf := State.newCell_stateOf
    exact ⟨c, .refl c, h.congr rfl hstate fun _ => Iff.rfl⟩
  | copyAssign b a =>
    obtain ⟨⟨hb, ha⟩, ⟨⟩⟩ := Option.ite_none_right_eq_some.mp hs
    exact h.copyAssign hinv hb ha hG
  | moveAssign b a =>
    obtain ⟨⟨hb, -⟩, ⟨⟩⟩ := Option.ite_none_right_eq_some.mp hs
    exact h.moveAssign hinv hb hG
  | cast a target owner =>
    obtain ⟨⟨ha, -⟩, ⟨⟩⟩ := Option.ite_none_right_eq_some.mp hs
    cases target with
    | none => exact ⟨c, .refl c, h⟩
    | some t => exact h.newCell_retain hinv (hinv.tracked ha)
  | destroy a =>
    obtain ⟨ha, ⟨⟩⟩ := Option.ite_none_right_eq_some.mp hs
    exact h.destroy hinv ha

end Stored

/-! ## The result -/

/-- Behind every state that careful operations on handles reach there is a store in chunks with the
    objects at any addresses, and calls that are all safe have led to it. -/
theorem stored_of_careful (addr : ObjectId → Addr) (hs : machine.ReachableBy Careful s) :
    ∃ c, (Capacity.machine none).ReachableBy (fun c call => c.Safe none call) c ∧
      Inv none none s [] ∧ Stored addr c s [] := by
  have hstep : ∀ s act s' c, Inv none none s [] ∧ Stored addr c s [] → Careful s act →
      machine.step s act = some s' →
        ∃ c', Calls c c' ∧ Inv none none s' [] ∧ Stored addr c' s' [] := by
    rintro s act s' c ⟨hinv, hstored⟩ hG hs
    obtain ⟨c', hcalls, hstored'⟩ := hstored.step hinv hG hs
    exact ⟨c', hcalls, hinv.step hG hs, hstored'⟩
  exact hs.simulation (N := Capacity.machine none)
    (fun s hinit => ⟨{}, rfl, hinit ▸ ⟨Inv.initial, Stored.initial⟩⟩) hstep

end Ctorium.Prototype
