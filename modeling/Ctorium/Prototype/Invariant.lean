import Ctorium.Prototype
import Mathlib.Algebra.Order.BigOperators.Group.Finset

/-!
# References and their counts

The invariant `Inv` of the operations on handles, stated for the middle of an
operation too: with the work that a release has left, a destination cell whose
handle is already released, and a reference in flight, counted in a slot and in no
cell. Every operation is a sequence of small moves, each of which moves one
reference: a count goes up or down, a cell is made, destroyed, emptied or filled.
-/

namespace Ctorium.Prototype

open Function State

variable {s s' : State} {stale : Option CellId} {flight : Option SlotId} {ws : List Work}
  {c d : CellId} {i : SlotId} {o : ObjectId} {h : Handle}

/-- The cells with a handle that tracks the slot, one cell excepted. -/
def State.handles (s : State) (stale : Option CellId) (i : SlotId) : Finset CellId :=
  {c ∈ Finset.range s.nextCell | some c ≠ stale ∧ (s.cells c).alive ∧
    (s.cells c).handle.isPrototype ∧ (s.cells c).handle.slot = i}

/-! ## The invariant -/

def State.memoryAt (s : State) (i : SlotId) : Option ObjectId := (s.slots i).memory

def State.stateOf (s : State) (o : ObjectId) : ObjectState := (s.objects o).state

/-- The slot of a handle that tracks a prototype. -/
def Handle.tracking (h : Handle) : Option SlotId := if h.isPrototype then some h.slot else none

/-- The handle tracks no prototype, or one that is there. -/
def Tracked (s : State) (h : Handle) : Prop :=
  h.isPrototype → ∃ o, h.object = some o ∧ s.memoryAt h.slot = some o ∧ s.stateOf o = .active

/-- How cells and beans fit, with `ws` left to do: the members of beans are cells, and
    every cell with an owner is a member, or about to be destroyed. -/
structure Cells (cells : CellId → Cell) (nextCell : CellId) (objects : ObjectId → Object)
    (stale : Option CellId) (ws : List Work) : Prop where
  lt : ∀ c, (cells c).alive → c < nextCell
  owned : ∀ c o, (cells c).alive → (cells c).owner = some o →
    ((objects o).state = .active ∧ c ∈ (objects o).members) ∨ .destroyCell c ∈ ws
  member : ∀ o, (objects o).state = .active → ∀ c ∈ (objects o).members,
    (cells c).alive ∧ (cells c).owner = some o ∧ .destroyCell c ∉ ws
  members_nodup : ∀ o, (objects o).state = .active → (objects o).members.Nodup
  work : ∀ c, .destroyCell c ∈ ws → (cells c).alive ∧ some c ≠ stale

/-- How slots and beans fit: a slot has a bean, or is free, or about to be. -/
structure Slots (memory : SlotId → Option ObjectId) (slotCount : ℕ) (freelist : List SlotId)
    (state : ObjectId → ObjectState) (ws : List Work) : Prop where
  lt : ∀ i o, memory i = some o → i < slotCount
  le : slotCount ≤ kMaxSlots
  object : ∀ i o, memory i = some o → state o = .reserved ∨ state o = .active
  memory_inj : ∀ i j o, memory i = some o → memory j = some o → i = j
  slot : ∀ o, state o = .active → ∃ i, memory i = some o
  free : ∀ i ∈ freelist, memory i = none ∧ i < slotCount
  freelist_nodup : freelist.Nodup
  work : ∀ i, .reclaimSlot i ∈ ws → memory i = none ∧ i ∉ freelist ∧ i < slotCount

/-- The counts of the slots, where the handle in the cell `stale` is released and not
    yet replaced, and the slot `flight` counts one reference that is in no cell. -/
structure Counts (s : State) (stale : Option CellId) (flight : Option SlotId) : Prop where
  tracked : ∀ c, (s.cells c).alive → some c ≠ stale → Tracked s (s.cells c).handle
  refcount : ∀ i o, s.memoryAt i = some o → s.stateOf o = .active →
    (s.slots i).refcount = (s.handles stale i).card + (if flight = some i then 1 else 0)
  pos : ∀ i o, s.memoryAt i = some o → s.stateOf o = .active → 0 < (s.slots i).refcount
  lt : ∀ i o, s.memoryAt i = some o → s.stateOf o = .active → (s.slots i).refcount < 2 ^ 32

/-- The destroyed beans are those that went through their destruction lifecycle. -/
structure History (state : ObjectId → ObjectState) (nextObject : ObjectId)
    (lifecycles : List ObjectId) : Prop where
  lt : ∀ o, state o ≠ .absent → o < nextObject
  mem : ∀ o, o ∈ lifecycles ↔ state o = .destroyed
  nodup : lifecycles.Nodup

/-- The invariant, in the middle of an operation. -/
structure Inv (stale : Option CellId) (flight : Option SlotId) (s : State) (ws : List Work) :
    Prop where
  cells : Cells s.cells s.nextCell s.objects stale ws
  slots : Slots s.memoryAt s.slotCount s.freelist s.stateOf ws
  counts : Counts s stale flight
  history : History s.stateOf s.nextObject s.lifecycles
  nodup : ws.Nodup
  alive : s.dangling = false

theorem Inv.initial : Inv none none {} [] where
  cells := by constructor <;> simp
  slots := by constructor <;> simp [State.memoryAt, State.stateOf]
  counts := by constructor <;> simp [State.memoryAt]
  history := by constructor <;> simp [State.stateOf]
  nodup := List.nodup_nil
  alive := rfl

theorem mem_handles : c ∈ s.handles stale i ↔ c < s.nextCell ∧ some c ≠ stale ∧
    (s.cells c).alive ∧ (s.cells c).handle.isPrototype ∧ (s.cells c).handle.slot = i := by
  simp [State.handles]

theorem Handle.tracking_eq_some : h.tracking = some i ↔ h.isPrototype ∧ h.slot = i := by
  unfold Handle.tracking
  split <;> simp_all

/-- A handle that tracks a slot finds the bean of the slot. -/
theorem Tracked.of_slot (ht : Tracked s h) (hproto : h.isPrototype)
    (hmem : s.memoryAt h.slot = some o) : h.object = some o ∧ s.stateOf o = .active := by
  obtain ⟨o', hobj, hmem', hactive⟩ := ht hproto
  obtain rfl : o' = o := Option.some.inj (hmem'.symm.trans hmem)
  exact ⟨hobj, hactive⟩

/-! ## References in flight

The operations move one reference at a time between the count of a slot and a cell. -/

@[simp] theorem State.retain_memoryAt : (s.retain i).memoryAt = s.memoryAt := by
  funext j
  by_cases hj : j = i
  · subst hj
    simp [State.memoryAt, State.retain, State.setSlot]
  · simp [State.memoryAt, State.retain, State.setSlot, hj]

namespace Counts

/-- A reference is counted before its handle is there. -/
theorem retain (hc : Counts s stale none) (hmem : s.memoryAt i = some o)
    (hactive : s.stateOf o = .active) (hlt : (s.handles stale i).card < 2 ^ 32 - 1) :
    Counts (s.retain i) stale (some i) := by
  have hrefcount : (s.slots i).refcount = (s.handles stale i).card := by
    simpa using hc.refcount i o hmem hactive
  -- The count fits into 32 bits before and after.
  have hsame : ((s.retain i).slots i).refcount = (s.handles stale i).card + 1 := by
    simp only [State.retain, State.setSlot, update_self, hrefcount]
    exact Nat.mod_eq_of_lt (by omega)
  have hother : ∀ j, j ≠ i → ((s.retain i).slots j).refcount = (s.slots j).refcount :=
    fun j hj => by simp [State.retain, State.setSlot, hj]
  constructor
  · intro c halive hstale hproto
    rw [State.retain_memoryAt]
    exact hc.tracked c halive hstale hproto
  · intro j o' hj hst
    rw [State.retain_memoryAt] at hj
    -- Only slot `i` counts one more.
    by_cases hji : j = i
    · subst hji
      rw [hsame, if_pos rfl]
      rfl
    · rw [hother j hji, if_neg fun he => hji (Option.some.inj he).symm]
      exact hc.refcount j o' hj hst
  · intro j o' hj hst
    rw [State.retain_memoryAt] at hj
    by_cases hji : j = i
    · subst hji
      rw [hsame]
      exact Nat.succ_pos _
    · rw [hother j hji]
      exact hc.pos j o' hj hst
  · intro j o' hj hst
    rw [State.retain_memoryAt] at hj
    by_cases hji : j = i
    · subst hji
      rw [hsame]
      omega
    · rw [hother j hji]
      exact hc.lt j o' hj hst

/-- The counts after a change of the cells that moves the reference of a handle out
    of a cell and into flight, or the other way. -/
theorem transfer (hc : Counts s stale flight) {stale' : Option CellId} {flight' : Option SlotId}
    (hslots : s'.slots = s.slots) (hstate : s'.stateOf = s.stateOf)
    (htracked : ∀ c, (s'.cells c).alive → some c ≠ stale' → Tracked s (s'.cells c).handle)
    (hcard : ∀ i, (s'.handles stale' i).card + (if flight' = some i then 1 else 0) =
      (s.handles stale i).card + (if flight = some i then 1 else 0)) :
    Counts s' stale' flight' := by
  have hmemory : s'.memoryAt = s.memoryAt := funext fun i => by simp [State.memoryAt, hslots]
  constructor
  · intro c halive hstale hproto
    rw [hmemory, hstate]
    exact htracked c halive hstale hproto
  · intro i o hmem hactive
    rw [hmemory] at hmem
    rw [hstate] at hactive
    rw [hslots, hcard]
    exact hc.refcount i o hmem hactive
  · intro i o hmem hactive
    rw [hmemory] at hmem
    rw [hstate] at hactive
    rw [hslots]
    exact hc.pos i o hmem hactive
  · intro i o hmem hactive
    rw [hmemory] at hmem
    rw [hstate] at hactive
    rw [hslots]
    exact hc.lt i o hmem hactive

end Counts

/-- One more cell with the handle `h`. -/
theorem card_handles_insert (s s' : State) (stale stale' : Option CellId) (c : CellId) (h : Handle)
    (hnot : c ∉ s.handles stale i)
    (hins : ∀ b, b ∈ s'.handles stale' i ↔ b ∈ s.handles stale i ∨ (b = c ∧ h.tracking = some i)) :
    (s'.handles stale' i).card =
      (s.handles stale i).card + (if h.tracking = some i then 1 else 0) := by
  split
  · have : s'.handles stale' i = insert c (s.handles stale i) := by
      ext b
      rw [hins, Finset.mem_insert, or_comm]
      simp_all
    rw [this, Finset.card_insert_of_notMem hnot]
  · have : s'.handles stale' i = s.handles stale i := by
      ext b
      rw [hins]
      simp_all
    rw [this, add_zero]

/-! ### A new cell -/

@[simp] theorem State.newCell_stateOf {owner : Option ObjectId} :
    (s.newCell h owner).stateOf = s.stateOf := by
  funext o
  cases owner with
  | none => rfl
  | some o' =>
    by_cases ho : o = o'
    · subst ho
      simp [State.stateOf, State.newCell]
    · simp [State.stateOf, State.newCell, ho]

theorem State.newCell_members {owner : Option ObjectId} :
    ((s.newCell h owner).objects o).members =
      if owner = some o then (s.objects o).members ++ [s.nextCell] else (s.objects o).members := by
  cases owner with
  | none => rfl
  | some o' =>
    by_cases ho : o = o'
    · subst ho
      simp [State.newCell]
    · simp [State.newCell, ho, Ne.symm ho]

theorem Cells.newCell {owner : Option ObjectId}
    (hc : Cells s.cells s.nextCell s.objects stale ws) (howner : s.ownerOk owner) :
    Cells (s.newCell h owner).cells (s.newCell h owner).nextCell (s.newCell h owner).objects
      stale ws := by
  have hfresh : ¬(s.cells s.nextCell).alive := fun halive => Nat.lt_irrefl _ (hc.lt _ halive)
  have hnew : (s.newCell h owner).cells s.nextCell = ⟨h, owner, true⟩ := update_self ..
  have hold : ∀ c, c ≠ s.nextCell → (s.newCell h owner).cells c = s.cells c :=
    fun c hne => update_of_ne hne ..
  have hstate : ∀ o, ((s.newCell h owner).objects o).state = (s.objects o).state :=
    fun o => congrFun State.newCell_stateOf o
  have hwork : ∀ c, .destroyCell c ∈ ws → c ≠ s.nextCell :=
    fun c hmem he => hfresh (he ▸ (hc.work c hmem).1)
  constructor
  -- The new cell, or one of before; a cell of before is not the new one, which nobody has yet.
  · intro c halive
    by_cases hne : c = s.nextCell
    · rw [hne]
      exact Nat.lt_succ_self _
    · rw [hold c hne] at halive
      exact Nat.lt_succ_of_lt (hc.lt c halive)
  · intro c o halive ho
    rw [hstate, State.newCell_members]
    by_cases hne : c = s.nextCell
    · subst hne
      rw [hnew] at ho
      have howner' : owner = some o := ho
      rw [howner'] at howner
      rw [if_pos howner']
      exact .inl ⟨by simpa [State.ownerOk] using howner, by simp⟩
    · rw [hold c hne] at halive ho
      refine (hc.owned c o halive ho).imp (fun hmem => ⟨hmem.1, ?_⟩) id
      split
      · exact List.mem_append_left _ hmem.2
      · exact hmem.2
  · intro o hactive c hmem
    rw [hstate] at hactive
    rw [State.newCell_members] at hmem
    by_cases hne : c = s.nextCell
    · subst hne
      rw [hnew]
      refine ⟨rfl, ?_, fun hw => hwork _ hw rfl⟩
      split at hmem
      · assumption
      · exact absurd (hc.member o hactive _ hmem).1 hfresh
    · rw [hold c hne]
      refine hc.member o hactive c ?_
      split at hmem
      · exact (List.mem_append.mp hmem).resolve_right (by simpa using hne)
      · exact hmem
  · intro o hactive
    rw [hstate] at hactive
    rw [State.newCell_members]
    split
    · rw [List.nodup_append_comm]
      refine List.nodup_cons.mpr ⟨fun hmem => ?_, hc.members_nodup o hactive⟩
      exact hfresh (hc.member o hactive _ hmem).1
    · exact hc.members_nodup o hactive
  · intro c hmem
    rw [hold c (hwork c hmem)]
    exact hc.work c hmem

/-- The reference in flight lands in a new cell. -/
theorem Inv.newCell {owner : Option ObjectId} (hinv : Inv stale h.tracking s ws)
    (hstale : ∀ d, stale = some d → (s.cells d).alive) (howner : s.ownerOk owner)
    (ht : Tracked s h) : Inv stale none (s.newCell h owner) ws := by
  have hfresh : ¬(s.cells s.nextCell).alive := fun halive =>
    Nat.lt_irrefl _ (hinv.cells.lt _ halive)
  have hne_stale : some s.nextCell ≠ stale := fun he => hfresh (hstale _ he.symm)
  refine ⟨hinv.cells.newCell howner, ?_, ?_, ?_, hinv.nodup, hinv.alive⟩
  · rw [State.newCell_stateOf]
    exact hinv.slots
  · refine hinv.counts.transfer rfl State.newCell_stateOf ?_ fun i => ?_
    · intro c halive hc
      -- The new handle tracks a bean because the old one did, or because it was just made.
      by_cases hne : c = s.nextCell
      · subst hne
        simpa [State.newCell] using ht
      · simp only [State.newCell, update_of_ne hne] at halive ⊢
        exact hinv.counts.tracked c halive hc
    -- If the handle tracks a slot, the slot has one handle more.
    · rw [card_handles_insert s _ stale stale s.nextCell h]
      · simp
      · exact fun hmem => hfresh (mem_handles.mp hmem).2.2.1
      · intro b
        rw [mem_handles, mem_handles, Handle.tracking_eq_some]
        by_cases hb : b = s.nextCell
        · subst hb
          simp [State.newCell, hne_stale]
        · have hlt : b < s.nextCell + 1 ↔ b < s.nextCell := by
            rw [Nat.lt_succ_iff_lt_or_eq]
            simp [hb]
          simp [State.newCell, hb, hlt]
  · rw [State.newCell_stateOf]
    exact hinv.history

/-! ### The handle of a cell is taken or replaced -/

/-- A change of the handle in a cell is none for the beans. -/
theorem Cells.setHandle (hc : Cells s.cells s.nextCell s.objects stale ws) (c : CellId)
    (h : Handle) : Cells (s.setHandle c h).cells s.nextCell s.objects stale ws := by
  have hsame : ∀ b, ((s.setHandle c h).cells b).alive = (s.cells b).alive ∧
      ((s.setHandle c h).cells b).owner = (s.cells b).owner := by
    intro b
    by_cases hb : b = c
    · subst hb
      simp [State.setHandle]
    · simp [State.setHandle, hb]
  constructor
  · intro b halive
    rw [(hsame b).1] at halive
    exact hc.lt b halive
  · intro b o halive ho
    rw [(hsame b).1] at halive
    rw [(hsame b).2] at ho
    exact hc.owned b o halive ho
  · intro o hactive b hmem
    rw [(hsame b).1, (hsame b).2]
    exact hc.member o hactive b hmem
  · exact hc.members_nodup
  · intro b hmem
    rw [(hsame b).1]
    exact hc.work b hmem

/-- The handle of a cell is moved out: its reference is in flight. -/
theorem Inv.takeHandle (hinv : Inv stale none s ws) (halive : (s.cells c).alive)
    (hstale : some c ≠ stale) : Inv stale (s.cells c).handle.tracking (s.setHandle c {}) ws := by
  refine ⟨hinv.cells.setHandle c {}, hinv.slots, ?_, hinv.history, hinv.nodup, hinv.alive⟩
  refine hinv.counts.transfer rfl rfl ?_ fun i => ?_
  · intro b hb hne
    by_cases hbc : b = c
    · subst hbc
      intro hproto
      simp [State.setHandle, Handle.isPrototype] at hproto
    · simp only [State.setHandle, update_of_ne hbc] at hb ⊢
      exact hinv.counts.tracked b hb hne
  · rw [← card_handles_insert (s.setHandle c {}) s stale stale c (s.cells c).handle]
    · simp
    · intro hmem
      have := (mem_handles.mp hmem).2.2.2.1
      simp [State.setHandle, Handle.isPrototype] at this
    · intro b
      rw [mem_handles, mem_handles, Handle.tracking_eq_some]
      by_cases hb : b = c
      · subst hb
        simp [State.setHandle, Handle.isPrototype, hinv.cells.lt b halive, hstale, halive]
      · simp [State.setHandle, hb]

/-- The handle of a cell is released, while the cell still has it. -/
theorem Inv.makeStale (hinv : Inv none none s ws) (halive : (s.cells d).alive)
    (hwork : .destroyCell d ∉ ws) : Inv (some d) (s.cells d).handle.tracking s ws := by
  refine ⟨⟨hinv.cells.lt, hinv.cells.owned, hinv.cells.member, hinv.cells.members_nodup, ?_⟩,
    hinv.slots, ?_, hinv.history, hinv.nodup, hinv.alive⟩
  · intro c hmem
    refine ⟨(hinv.cells.work c hmem).1, fun he => hwork ?_⟩
    exact Option.some.inj he ▸ hmem
  · refine hinv.counts.transfer rfl rfl (fun c hc _ => hinv.counts.tracked c hc nofun) fun i => ?_
    rw [← card_handles_insert s s (some d) none d (s.cells d).handle]
    · simp
    · exact fun hmem => (mem_handles.mp hmem).2.1 rfl
    · intro b
      rw [mem_handles, mem_handles, Handle.tracking_eq_some]
      by_cases hb : b = d
      · subst hb
        simp [hinv.cells.lt b halive, halive]
      · simp [hb]

/-- The reference in flight lands in the destination of an assignment. -/
theorem Inv.assign (hinv : Inv (some d) h.tracking s []) (halive : (s.cells d).alive)
    (ht : Tracked s h) : Inv none none (s.setHandle d h) [] := by
  have hcells := hinv.cells.setHandle d h
  refine ⟨⟨hcells.lt, hcells.owned, hcells.member, hcells.members_nodup, nofun⟩, hinv.slots, ?_,
    hinv.history, hinv.nodup, hinv.alive⟩
  refine hinv.counts.transfer rfl rfl ?_ fun i => ?_
  · intro b hb _
    by_cases hbd : b = d
    · subst hbd
      simpa [State.setHandle] using ht
    · simp only [State.setHandle, update_of_ne hbd] at hb ⊢
      exact hinv.counts.tracked b hb fun he => hbd (Option.some.inj he)
  · rw [card_handles_insert s _ (some d) none d h]
    · simp
    · exact fun hmem => (mem_handles.mp hmem).2.1 rfl
    · intro b
      rw [mem_handles, mem_handles, Handle.tracking_eq_some]
      by_cases hb : b = d
      · subst hb
        simp [State.setHandle, hinv.cells.lt b halive, halive]
      · simp [State.setHandle, hb]

/-! ## The state of a bean changes -/

/-- A bean that is not destroyed gets another such state. -/
theorem History.update {state : ObjectId → ObjectState} {nextObject nextObject' : ObjectId}
    {lifecycles : List ObjectId} {st : ObjectState} (hh : History state nextObject lifecycles)
    (ho : state o ≠ .destroyed) (hst : st ≠ .destroyed) (hlt : o < nextObject')
    (hle : nextObject ≤ nextObject') :
    History (Function.update state o st) nextObject' lifecycles where
  lt o' hne := by
    by_cases he : o' = o
    · exact he ▸ hlt
    · rw [update_of_ne he] at hne
      exact Nat.lt_of_lt_of_le (hh.lt o' hne) hle
  mem o' := by
    rw [hh.mem]
    by_cases he : o' = o
    · simp [he, ho, hst]
    · rw [update_of_ne he]
  nodup := hh.nodup

/-- An active bean goes through its destruction lifecycle. -/
theorem History.destroy {state : ObjectId → ObjectState} {nextObject : ObjectId}
    {lifecycles : List ObjectId} (hh : History state nextObject lifecycles)
    (ho : state o = .active) :
    History (Function.update state o .destroyed) nextObject (o :: lifecycles) where
  lt o' hne := by
    by_cases he : o' = o
    · exact he ▸ hh.lt o (by rw [ho]; exact nofun)
    · rw [update_of_ne he] at hne
      exact hh.lt o' hne
  mem o' := by
    by_cases he : o' = o
    · simp [he]
    · rw [update_of_ne he, List.mem_cons, ← hh.mem]
      simp [he]
  nodup := by
    refine List.nodup_cons.mpr ⟨?_, hh.nodup⟩
    rw [hh.mem, ho]
    exact nofun

namespace Slots

variable {memory : SlotId → Option ObjectId} {slotCount slotCount' : ℕ}
  {freelist freelist' : List SlotId} {state : ObjectId → ObjectState}

/-- The bean of a slot is not another one's. -/
theorem ne_of_ne (hs : Slots memory slotCount freelist state ws) (hmem : memory i = some o)
    {j : SlotId} {o' : ObjectId} (hj : memory j = some o') (hji : j ≠ i) : o' ≠ o := by
  rintro rfl
  exact hji (hs.memory_inj j i _ hj hmem)

/-- What a slot without its bean leaves. -/
theorem update_none_eq_some (hs : Slots memory slotCount freelist state ws)
    (hmem : memory i = some o) {j : SlotId} {o' : ObjectId} :
    update memory i none j = some o' ↔ memory j = some o' ∧ j ≠ i ∧ o' ≠ o := by
  by_cases hji : j = i
  · simp [hji]
  · rw [update_of_ne hji]
    exact ⟨fun hj => ⟨hj, hji, hs.ne_of_ne hmem hj hji⟩, And.left⟩

/-- A slot gets a new bean. -/
theorem reserve (hs : Slots memory slotCount freelist state []) (hfree : memory i = none)
    (habsent : state o = .absent) (hnot : i ∉ freelist') (hlt : i < slotCount')
    (hle : slotCount' ≤ kMaxSlots) (hcount : slotCount ≤ slotCount')
    (hsub : freelist'.Sublist freelist) :
    Slots (update memory i (some o)) slotCount' freelist' (update state o .reserved) [] := by
  have hne : ∀ j o', memory j = some o' → o' ≠ o := by
    rintro j o' hj rfl
    rcases hs.object j _ hj with h | h <;> rw [habsent] at h <;> cases h
  have hcases : ∀ j o', update memory i (some o) j = some o' →
      j = i ∧ o' = o ∨ j ≠ i ∧ memory j = some o' := by
    intro j o' hj
    by_cases hji : j = i
    · rw [hji, update_self] at hj
      exact .inl ⟨hji, (Option.some.inj hj).symm⟩
    · rw [update_of_ne hji] at hj
      exact .inr ⟨hji, hj⟩
  -- The slot had no memory and the object is a new one, so neither clashes with what was there.
  refine ⟨?_, hle, ?_, ?_, ?_, ?_, hs.freelist_nodup.sublist hsub, nofun⟩
  · intro j o' hj
    rcases hcases j o' hj with ⟨rfl, -⟩ | ⟨-, hj⟩
    · exact hlt
    · exact Nat.lt_of_lt_of_le (hs.lt j o' hj) hcount
  · intro j o' hj
    rcases hcases j o' hj with ⟨-, rfl⟩ | ⟨-, hj⟩
    · exact .inl (update_self ..)
    · rw [update_of_ne (hne j o' hj)]
      exact hs.object j o' hj
  · intro j k o' hj hk
    rcases hcases j o' hj with ⟨hji, ho⟩ | ⟨-, hj'⟩
    · rcases hcases k o' hk with ⟨hki, -⟩ | ⟨-, hk'⟩
      · exact hji.trans hki.symm
      · exact absurd ho (hne k o' hk')
    · rcases hcases k o' hk with ⟨-, ho⟩ | ⟨-, hk'⟩
      · exact absurd ho (hne j o' hj')
      · exact hs.memory_inj j k o' hj' hk'
  · intro o' hact
    have ho' : o' ≠ o := by
      rintro rfl
      rw [update_self] at hact
      cases hact
    rw [update_of_ne ho'] at hact
    obtain ⟨j, hj⟩ := hs.slot o' hact
    refine ⟨j, ?_⟩
    rw [update_of_ne, hj]
    rintro rfl
    rw [hfree] at hj
    cases hj
  · intro j hj
    have hji : j ≠ i := by
      rintro rfl
      exact hnot hj
    rw [update_of_ne hji]
    obtain ⟨hmem, hj'⟩ := hs.free j (hsub.subset hj)
    exact ⟨hmem, Nat.lt_of_lt_of_le hj' hcount⟩

/-- The bean of a slot is there. -/
theorem activate (hs : Slots memory slotCount freelist state ws) (hmem : memory i = some o) :
    Slots memory slotCount freelist (update state o .active) ws := by
  refine ⟨hs.lt, hs.le, fun j o' hj => ?_, hs.memory_inj, fun o' hact => ?_, hs.free,
    hs.freelist_nodup, hs.work⟩
  · by_cases ho : o' = o
    · exact .inr (by rw [ho, update_self])
    · rw [update_of_ne ho]
      exact hs.object j o' hj
  · by_cases ho : o' = o
    · exact ⟨i, ho ▸ hmem⟩
    · rw [update_of_ne ho] at hact
      exact hs.slot o' hact

/-- The bean of a slot goes, and the slot is left to be reclaimed. -/
theorem clear (hs : Slots memory slotCount freelist state ws) (hmem : memory i = some o)
    {st : ObjectState} (hst : st ≠ .active) {ws' : List Work}
    (hwork : ∀ j, .reclaimSlot j ∈ ws' → j = i ∨ .reclaimSlot j ∈ ws) :
    Slots (update memory i none) slotCount freelist (update state o st) ws' := by
  -- A slot in use is not `i`, and its object is not `o`.
  refine ⟨?_, hs.le, ?_, ?_, ?_, ?_, hs.freelist_nodup, ?_⟩
  · exact fun j o' hj => hs.lt j o' ((hs.update_none_eq_some hmem).mp hj).1
  · intro j o' hj
    obtain ⟨hj, -, ho'⟩ := (hs.update_none_eq_some hmem).mp hj
    rw [update_of_ne ho']
    exact hs.object j o' hj
  · exact fun j k o' hj hk => hs.memory_inj j k o' ((hs.update_none_eq_some hmem).mp hj).1
      ((hs.update_none_eq_some hmem).mp hk).1
  · intro o' hact
    have ho' : o' ≠ o := by
      rintro rfl
      rw [update_self] at hact
      exact hst hact
    rw [update_of_ne ho'] at hact
    obtain ⟨j, hj⟩ := hs.slot o' hact
    refine ⟨j, (hs.update_none_eq_some hmem).mpr ⟨hj, ?_, ho'⟩⟩
    rintro rfl
    exact ho' (Option.some.inj (hj.symm.trans hmem))
  · intro j hj
    by_cases hji : j = i
    · rw [hji, update_self]
      exact ⟨rfl, hs.lt i o hmem⟩
    · rw [update_of_ne hji]
      exact hs.free j hj
  · intro j hw
    by_cases hji : j = i
    · rw [hji, update_self]
      refine ⟨rfl, fun hfree => ?_, hs.lt i o hmem⟩
      exact absurd hmem (by rw [(hs.free i hfree).1]; nofun)
    · rw [update_of_ne hji]
      exact hs.work j ((hwork j hw).resolve_left hji)

/-- A slot that was left to be reclaimed goes to the free list. -/
theorem reclaim (hs : Slots memory slotCount freelist state (.reclaimSlot i :: ws))
    (hnot : .reclaimSlot i ∉ ws) : Slots memory slotCount (i :: freelist) state ws := by
  obtain ⟨hmem, hfree, hlt⟩ := hs.work i List.mem_cons_self
  refine ⟨hs.lt, hs.le, hs.object, hs.memory_inj, hs.slot, ?_,
    List.nodup_cons.mpr ⟨hfree, hs.freelist_nodup⟩, ?_⟩
  · intro j hj
    rcases List.mem_cons.mp hj with rfl | hj
    · exact ⟨hmem, hlt⟩
    · exact hs.free j hj
  · intro j hw
    obtain ⟨hj, hfree', hlt'⟩ := hs.work j (List.mem_cons_of_mem _ hw)
    refine ⟨hj, fun hj' => ?_, hlt'⟩
    rcases List.mem_cons.mp hj' with rfl | hj'
    · exact hnot hw
    · exact hfree' hj'

end Slots

namespace Cells

variable {cells : CellId → Cell} {nextCell : CellId} {objects objects' : ObjectId → Object}

/-- Only beans that are there have members. -/
theorem congr (hc : Cells cells nextCell objects stale ws)
    (hactive : ∀ o, (objects' o).state = .active ↔ (objects o).state = .active)
    (hsame : ∀ o, (objects o).state = .active → objects' o = objects o) :
    Cells cells nextCell objects' stale ws := by
  refine ⟨hc.lt, fun c o halive ho => (hc.owned c o halive ho).imp_left ?_, ?_, ?_, hc.work⟩
  · rintro ⟨hact, hmem⟩
    exact ⟨(hactive o).mpr hact, by rwa [hsame o hact]⟩
  · intro o hact c hmem
    rw [hactive] at hact
    rw [hsame o hact] at hmem
    exact hc.member o hact c hmem
  · intro o hact
    rw [hactive] at hact
    rw [hsame o hact]
    exact hc.members_nodup o hact

/-- A bean is there, and variables become its members. -/
theorem activate {members : List CellId} (hc : Cells cells nextCell objects none [])
    (ho : (objects o).state ≠ .active) (hnodup : members.Nodup)
    (hvar : ∀ c ∈ members, (cells c).alive ∧ (cells c).owner = none) :
    Cells (fun c => if c ∈ members then { cells c with owner := some o } else cells c) nextCell
      (update objects o ⟨.active, members⟩) none [] := by
  have halive : ∀ c, (if c ∈ members then { cells c with owner := some o } else cells c).alive =
      (cells c).alive := fun c => by split <;> rfl
  have hobject : ∀ o', (objects o').state = .active →
      update objects o ⟨.active, members⟩ o' = objects o' := by
    intro o' hact
    refine update_of_ne ?_ ..
    rintro rfl
    exact ho hact
  refine ⟨fun c hc' => hc.lt c ((halive c).symm.trans hc'), ?_, ?_, ?_, nofun⟩
  -- A cell that is no new member belonged to a bean that was active before.
  · intro c o' hc' howner
    rw [halive] at hc'
    dsimp only at howner
    split at howner
    · next hmem =>
      obtain rfl := Option.some.inj howner
      rw [update_self]
      exact .inl ⟨rfl, hmem⟩
    · obtain ⟨hact, hmem⟩ := (hc.owned c o' hc' howner).resolve_right List.not_mem_nil
      rw [hobject o' hact]
      exact .inl ⟨hact, hmem⟩
  · intro o' hact c hmem
    rw [halive]
    by_cases he : o' = o
    · rw [he, update_self] at hmem
      rw [if_pos hmem, he]
      exact ⟨(hvar c hmem).1, rfl, nofun⟩
    · rw [update_of_ne he] at hact hmem
      obtain ⟨hc', howner, -⟩ := hc.member o' hact c hmem
      have hnot : c ∉ members := fun hmem' => by
        rw [(hvar c hmem').2] at howner
        cases howner
      rw [if_neg hnot]
      exact ⟨hc', howner, nofun⟩
  · intro o' hact
    by_cases he : o' = o
    · rw [he, update_self]
      exact hnodup
    · rw [update_of_ne he] at hact ⊢
      exact hc.members_nodup o' hact

/-- A bean is destroyed, and its members are left to do. -/
theorem destroy {members : List CellId} (hc : Cells cells nextCell objects stale ws)
    (ho : (objects o).state = .active) (hstale : ∀ d, stale = some d → (cells d).owner ≠ some o)
    {more : List Work} (hmore : ∀ c, .destroyCell c ∈ more ↔ c ∈ (objects o).members) :
    Cells cells nextCell (update objects o ⟨.destroyed, members⟩) stale (more ++ ws) := by
  have hne : ∀ o', (update objects o ⟨.destroyed, members⟩ o').state = .active → o' ≠ o := by
    rintro o' hact rfl
    rw [update_self] at hact
    cases hact
  refine ⟨hc.lt, ?_, ?_, ?_, ?_⟩
  · intro c o' halive howner
    -- The members of the destroyed bean are work now; the owner of every other cell lives on.
    rw [List.mem_append]
    rcases hc.owned c o' halive howner with ⟨hact, hmem⟩ | hw
    · by_cases ho' : o' = o
      · subst ho'
        exact .inr (.inl ((hmore c).mpr hmem))
      · exact .inl (by rw [update_of_ne ho']; exact ⟨hact, hmem⟩)
    · exact .inr (.inr hw)
  · intro o' hact c hmem
    have ho' := hne o' hact
    rw [update_of_ne ho'] at hact hmem
    obtain ⟨halive, howner, hw⟩ := hc.member o' hact c hmem
    refine ⟨halive, howner, fun hw' => ?_⟩
    rcases List.mem_append.mp hw' with hw' | hw'
    · have := (hc.member o ho c ((hmore c).mp hw')).2.1
      exact ho' (Option.some.inj (howner.symm.trans this))
    · exact hw hw'
  · intro o' hact
    have ho' := hne o' hact
    rw [update_of_ne ho'] at hact ⊢
    exact hc.members_nodup o' hact
  -- A cell in the work is a member of this bean, or was in the work before.
  · intro c hw
    rcases List.mem_append.mp hw with hw | hw
    · obtain ⟨halive, howner, -⟩ := hc.member o ho c ((hmore c).mp hw)
      exact ⟨halive, fun he => hstale c he.symm howner⟩
    · exact hc.work c hw

end Cells

namespace Counts

/-- Nothing changes for the beans that are there. -/
theorem congr (hc : Counts s stale flight) (hcells : s'.cells = s.cells)
    (hnextCell : s'.nextCell = s.nextCell)
    (hrefcount : ∀ j, (s'.slots j).refcount = (s.slots j).refcount)
    (hactive : ∀ o, s'.stateOf o = .active ↔ s.stateOf o = .active)
    (hmemory : ∀ j o, s.stateOf o = .active → (s'.memoryAt j = some o ↔ s.memoryAt j = some o)) :
    Counts s' stale flight := by
  have hslot : ∀ {j o}, s'.memoryAt j = some o → s'.stateOf o = .active →
      s.memoryAt j = some o ∧ s.stateOf o = .active := fun {j o} hj hact =>
    ⟨(hmemory j o ((hactive o).mp hact)).mp hj, (hactive o).mp hact⟩
  refine ⟨fun c halive hstale hproto => ?_, fun j o hj hact => ?_, fun j o hj hact => ?_,
    fun j o hj hact => ?_⟩
  · rw [hcells] at halive hproto ⊢
    obtain ⟨o, hobj, hm, hact⟩ := hc.tracked c halive hstale hproto
    exact ⟨o, hobj, (hmemory _ o hact).mpr hm, (hactive o).mpr hact⟩
  · obtain ⟨hj, hact⟩ := hslot hj hact
    rw [hrefcount, hc.refcount j o hj hact]
    simp only [State.handles, hcells, hnextCell]
  · obtain ⟨hj, hact⟩ := hslot hj hact
    rw [hrefcount]
    exact hc.pos j o hj hact
  · obtain ⟨hj, hact⟩ := hslot hj hact
    rw [hrefcount]
    exact hc.lt j o hj hact

/-- No handle tracks a slot whose bean is not there. -/
theorem handles_eq_empty (hc : Counts s none none) (hmem : s.memoryAt i = some o)
    (hnot : s.stateOf o ≠ .active) : s.handles none i = ∅ := by
  refine Finset.eq_empty_of_forall_notMem fun c hmem' => ?_
  obtain ⟨-, -, halive, hproto, hslot⟩ := mem_handles.mp hmem'
  obtain ⟨o', -, hm, hact⟩ := hc.tracked c halive nofun hproto
  rw [hslot, hmem] at hm
  obtain rfl := Option.some.inj hm
  exact hnot hact

/-- The bean of a slot is there, with one reference in flight. -/
theorem activate (hc : Counts s none none)
    (hs : Slots s.memoryAt s.slotCount s.freelist s.stateOf []) (hmem : s.memoryAt i = some o)
    (hnot : s.stateOf o ≠ .active)
    (hmemory : s'.memoryAt = s.memoryAt) (hstate : s'.stateOf = update s.stateOf o .active)
    (hcell : ∀ c, (s'.cells c).alive = (s.cells c).alive ∧
      (s'.cells c).handle = (s.cells c).handle)
    (hnextCell : s'.nextCell = s.nextCell) (hself : (s'.slots i).refcount = 1)
    (hother : ∀ j, j ≠ i → (s'.slots j).refcount = (s.slots j).refcount) :
    Counts s' none (some i) := by
  have hne : ∀ o', s.stateOf o' = .active → o' ≠ o := by
    rintro o' hact rfl
    exact hnot hact
  have hhandles : ∀ j, s'.handles none j = s.handles none j := fun j => by
    simp only [State.handles, hnextCell, hcell]
  -- The slot itself, or one of which nothing changes.
  have hslot : ∀ {j o'}, s'.memoryAt j = some o' → s'.stateOf o' = .active →
      j = i ∨ j ≠ i ∧ s.memoryAt j = some o' ∧ s.stateOf o' = .active := by
    intro j o' hj hact
    rw [hmemory] at hj
    by_cases hji : j = i
    · exact .inl hji
    · rw [hstate, update_of_ne (hs.ne_of_ne hmem hj hji)] at hact
      exact .inr ⟨hji, hj, hact⟩
  refine ⟨?_, ?_, ?_, ?_⟩
  · intro c halive _ hproto
    rw [(hcell c).1] at halive
    rw [(hcell c).2] at hproto ⊢
    obtain ⟨o', hobj, hm, hact⟩ := hc.tracked c halive nofun hproto
    refine ⟨o', hobj, by rwa [hmemory], ?_⟩
    rw [hstate, update_of_ne (hne o' hact)]
    exact hact
  · intro j o' hj hact
    rcases hslot hj hact with rfl | ⟨hji, hj, hact⟩
    · rw [hself, hhandles, hc.handles_eq_empty hmem hnot, if_pos rfl]
      rfl
    · rw [hother j hji, hhandles, if_neg fun he => hji (Option.some.inj he).symm]
      exact hc.refcount j o' hj hact
  · intro j o' hj hact
    rcases hslot hj hact with rfl | ⟨hji, hj, hact⟩
    · rw [hself]
      exact Nat.one_pos
    · rw [hother j hji]
      exact hc.pos j o' hj hact
  · intro j o' hj hact
    rcases hslot hj hact with rfl | ⟨hji, hj, hact⟩
    · rw [hself]
      decide
    · rw [hother j hji]
      exact hc.lt j o' hj hact

end Counts

/-! ## Releases -/

/-- The cell of a destroyed handle. -/
def State.kill (s : State) (c : CellId) : State :=
  { s with cells := update s.cells c { s.cells c with alive := false } }

theorem State.perform_destroyCell : s.perform (.destroyCell c) =
    if (s.cells c).handle.isPrototype then (s.kill c).release (s.cells c).handle.slot
    else (s.kill c, []) := rfl

/-- The handle of a cell is destroyed: its reference is in flight. -/
theorem Inv.kill (hinv : Inv stale none s (.destroyCell c :: ws)) :
    Inv stale (s.cells c).handle.tracking (s.kill c) ws := by
  obtain ⟨halive, hstale⟩ := hinv.cells.work c List.mem_cons_self
  obtain ⟨hnot, hnodup⟩ := List.nodup_cons.mp hinv.nodup
  -- A cell that is alive afterwards is not `c`.
  have hself : ¬((s.kill c).cells c).alive := by simp [State.kill]
  have hother : ∀ b, b ≠ c → (s.kill c).cells b = s.cells b := fun b hb => update_of_ne hb ..
  refine ⟨⟨?_, ?_, ?_, hinv.cells.members_nodup, ?_⟩, ?_, ?_, hinv.history, hnodup, hinv.alive⟩
  · intro b hb
    rw [hother b fun he => hself (he ▸ hb)] at hb
    exact hinv.cells.lt b hb
  · intro b o hb ho
    have hne : b ≠ c := fun he => hself (he ▸ hb)
    rw [hother b hne] at hb ho
    refine (hinv.cells.owned b o hb ho).imp id fun hmem => ?_
    exact (List.mem_cons.mp hmem).resolve_left fun he => hne (Work.destroyCell.inj he)
  · intro o hactive b hmem
    obtain ⟨hb, ho, hw⟩ := hinv.cells.member o hactive b hmem
    have hne : b ≠ c := fun he => hw (he ▸ List.mem_cons_self)
    rw [hother b hne]
    exact ⟨hb, ho, fun hw' => hw (List.mem_cons_of_mem _ hw')⟩
  · intro b hmem
    rw [hother b fun he => hnot (he ▸ hmem)]
    exact hinv.cells.work b (List.mem_cons_of_mem _ hmem)
  · obtain ⟨hlt, hle, hobject, hinj, hslot, hfree, hfreelist, hwork⟩ := hinv.slots
    exact ⟨hlt, hle, hobject, hinj, hslot, hfree, hfreelist,
      fun i hmem => hwork i (List.mem_cons_of_mem _ hmem)⟩
  · refine hinv.counts.transfer rfl rfl ?_ fun i => ?_
    · intro b hb hne
      have hbc : b ≠ c := fun he => hself (he ▸ hb)
      rw [hother b hbc] at hb ⊢
      exact hinv.counts.tracked b hb hne
    -- The slot that the handle tracks, if there is one, has one handle less.
    · rw [← card_handles_insert (s.kill c) s stale stale c (s.cells c).handle]
      · simp
      · exact fun hmem => hself (mem_handles.mp hmem).2.2.1
      · intro b
        rw [mem_handles, mem_handles, Handle.tracking_eq_some]
        by_cases hb : b = c
        · subst hb
          simp [State.kill, hinv.cells.lt b halive, hstale, halive]
        · simp [State.kill, hb]

theorem State.release_not_last (hne : (s.slots i).refcount ≠ 1) :
    s.release i = (s.setSlot i { s.slots i with
      refcount := ((s.slots i).refcount + (2 ^ 32 - 1)) % 2 ^ 32 }, []) := by
  simp [State.release, hne]

/-- The release of a reference in flight that is not the last one. -/
theorem Inv.release_of_ne (hinv : Inv stale (some i) s ws) (hmem : s.memoryAt i = some o)
    (hactive : s.stateOf o = .active) (hne : (s.slots i).refcount ≠ 1) :
    Inv stale none (s.release i).1 ((s.release i).2 ++ ws) := by
  have hrefcount := hinv.counts.refcount i o hmem hactive
  have hpos := hinv.counts.pos i o hmem hactive
  have hlt := hinv.counts.lt i o hmem hactive
  rw [if_pos rfl] at hrefcount
  -- The count goes down by one and stays positive, since this was not the last handle.
  rw [State.release_not_last hne]
  set s' := s.setSlot i { s.slots i with
    refcount := ((s.slots i).refcount + (2 ^ 32 - 1)) % 2 ^ 32 } with hs'
  have hmemory : s'.memoryAt = s.memoryAt := by
    funext j
    by_cases hj : j = i
    · subst hj
      simp [hs', State.memoryAt, State.setSlot]
    · simp [hs', State.memoryAt, State.setSlot, hj]
  have hsame : (s'.slots i).refcount = (s.handles stale i).card := by
    simp only [hs', State.setSlot, update_self]
    omega
  have hother : ∀ j, j ≠ i → (s'.slots j).refcount = (s.slots j).refcount :=
    fun j hj => by simp [hs', State.setSlot, hj]
  refine ⟨hinv.cells, by rw [hmemory]; exact hinv.slots, ⟨?_, ?_, ?_, ?_⟩, hinv.history, hinv.nodup,
    hinv.alive⟩
  · intro c halive hstale hproto
    rw [hmemory]
    exact hinv.counts.tracked c halive hstale hproto
  · intro j o' hj hst
    rw [hmemory] at hj
    rw [if_neg nofun, add_zero]
    by_cases hji : j = i
    · rw [hji]
      exact hsame
    · rw [hother j hji, hinv.counts.refcount j o' hj hst,
        if_neg fun he => hji (Option.some.inj he).symm]
      rfl
  · intro j o' hj hst
    rw [hmemory] at hj
    by_cases hji : j = i
    · rw [hji, hsame]
      omega
    · rw [hother j hji]
      exact hinv.counts.pos j o' hj hst
  · intro j o' hj hst
    rw [hmemory] at hj
    by_cases hji : j = i
    · rw [hji, hsame]
      omega
    · rw [hother j hji]
      exact hinv.counts.lt j o' hj hst

/-- What the release of the last reference does: the bean `o` of the slot `i` is
    destroyed, and its members and the slot are left to do. -/
structure LastReleased (s : State) (i : SlotId) (o : ObjectId) (s' : State) (more : List Work) :
    Prop where
  more : more = (s.objects o).members.reverse.map .destroyCell ++ [.reclaimSlot i]
  memoryAt : s'.memoryAt = update s.memoryAt i none
  objects : s'.objects = update s.objects o ⟨.destroyed, (s.objects o).members⟩
  lifecycles : s'.lifecycles = o :: s.lifecycles
  refcount : ∀ j, j ≠ i → (s'.slots j).refcount = (s.slots j).refcount
  cells : s'.cells = s.cells
  nextCell : s'.nextCell = s.nextCell
  slotCount : s'.slotCount = s.slotCount
  freelist : s'.freelist = s.freelist
  nextObject : s'.nextObject = s.nextObject
  dangling : s'.dangling = s.dangling

theorem State.release_last (hmem : s.memoryAt i = some o) (heq : (s.slots i).refcount = 1) :
    LastReleased s i o (s.release i).1 (s.release i).2 := by
  have hrelease : s.release i = ({ (s.setSlot i { s.slots i with
      refcount := 0, memory := none }) with
        objects := update s.objects o ⟨.destroyed, (s.objects o).members⟩
        lifecycles := o :: s.lifecycles },
      (s.objects o).members.reverse.map .destroyCell ++ [.reclaimSlot i]) := by
    have hmem' : (s.slots i).memory = some o := hmem
    simp [State.release, heq, hmem', State.setSlot]
  rw [hrelease]
  refine ⟨rfl, ?_, rfl, rfl, fun j hj => by simp [State.setSlot, hj], rfl, rfl, rfl, rfl, rfl, rfl⟩
  funext j
  by_cases hj : j = i
  · subst hj
    simp [State.memoryAt, State.setSlot]
  · simp [State.memoryAt, State.setSlot, hj]

/-- The handles to a bean that goes are gone. -/
theorem Counts.destroy (hc : Counts s stale (some i))
    (hs : Slots s.memoryAt s.slotCount s.freelist s.stateOf ws) (hmem : s.memoryAt i = some o)
    (hnone : s.handles stale i = ∅) (hlt : ∀ c, (s.cells c).alive → c < s.nextCell)
    (hmemory : s'.memoryAt = update s.memoryAt i none)
    (hstate : s'.stateOf = update s.stateOf o .destroyed) (hcells : s'.cells = s.cells)
    (hnextCell : s'.nextCell = s.nextCell)
    (hrefcount : ∀ j, j ≠ i → (s'.slots j).refcount = (s.slots j).refcount) :
    Counts s' stale none := by
  have hslot : ∀ {j o'}, s'.memoryAt j = some o' → s'.stateOf o' = .active →
      j ≠ i ∧ s.memoryAt j = some o' ∧ s.stateOf o' = .active := by
    intro j o' hj hact
    rw [hmemory] at hj
    obtain ⟨hj, hji, ho⟩ := (hs.update_none_eq_some hmem).mp hj
    rw [hstate, update_of_ne ho] at hact
    exact ⟨hji, hj, hact⟩
  refine ⟨?_, ?_, ?_, ?_⟩
  · intro c halive hne hproto
    rw [hcells] at halive hproto ⊢
    obtain ⟨o', hobj, hm, hact⟩ := hc.tracked c halive hne hproto
    have hji : (s.cells c).handle.slot ≠ i := by
      intro hslot'
      have : c ∈ s.handles stale i := mem_handles.mpr ⟨hlt c halive, hne, halive, hproto, hslot'⟩
      rw [hnone] at this
      exact Finset.notMem_empty c this
    exact ⟨o', hobj, by rw [hmemory, update_of_ne hji]; exact hm,
      by rw [hstate, update_of_ne (hs.ne_of_ne hmem hm hji)]; exact hact⟩
  · intro j o' hj hact
    obtain ⟨hji, hj, hact⟩ := hslot hj hact
    rw [hrefcount j hji, hc.refcount j o' hj hact, if_neg fun he => hji (Option.some.inj he).symm,
      if_neg nofun]
    simp only [State.handles, hcells, hnextCell]
  · intro j o' hj hact
    obtain ⟨hji, hj, hact⟩ := hslot hj hact
    rw [hrefcount j hji]
    exact hc.pos j o' hj hact
  · intro j o' hj hact
    obtain ⟨hji, hj, hact⟩ := hslot hj hact
    rw [hrefcount j hji]
    exact hc.lt j o' hj hact

/-- The work that a destruction leaves is new. -/
theorem Inv.nodup_last {more : List Work} (hinv : Inv stale flight s ws)
    (hmem : s.memoryAt i = some o) (hactive : s.stateOf o = .active)
    (hmore : more = (s.objects o).members.reverse.map .destroyCell ++ [.reclaimSlot i]) :
    (more ++ ws).Nodup := by
  rw [List.nodup_append]
  refine ⟨?_, hinv.nodup, ?_⟩
  · rw [hmore, List.nodup_append_comm, List.singleton_append, List.nodup_cons]
    refine ⟨by simp, (List.nodup_reverse.mpr (hinv.cells.members_nodup o hactive)).map ?_⟩
    exact fun b b' he => Work.destroyCell.inj he
  · rintro w hw w' hw' rfl
    rw [hmore, List.mem_append, List.mem_map] at hw
    rcases hw with ⟨b, hb, rfl⟩ | hw
    · exact (hinv.cells.member o hactive b (List.mem_reverse.mp hb)).2.2 hw'
    · rw [List.mem_singleton.mp hw] at hw'
      exact absurd hmem (by rw [(hinv.slots.work i hw').1]; nofun)

/-- The release of the last reference in flight. -/
theorem Inv.release_of_eq (hinv : Inv stale (some i) s ws) (hmem : s.memoryAt i = some o)
    (hactive : s.stateOf o = .active) (heq : (s.slots i).refcount = 1)
    (hstale : ∀ d, stale = some d → (s.cells d).owner ≠ some o) :
    Inv stale none (s.release i).1 ((s.release i).2 ++ ws) := by
  -- The one reference that is counted is the one that goes.
  have hnone : s.handles stale i = ∅ := by
    have hrefcount := hinv.counts.refcount i o hmem hactive
    rw [if_pos rfl, heq] at hrefcount
    exact Finset.card_eq_zero.mp (by omega)
  have hlast := State.release_last hmem heq
  -- Of the release only what `Last` says is used.
  generalize (s.release i).1 = s' at *
  generalize (s.release i).2 = more at *
  have hstate : s'.stateOf = update s.stateOf o .destroyed := by
    funext o'
    by_cases ho : o' = o
    · subst ho
      simp [State.stateOf, hlast.objects]
    · simp [State.stateOf, hlast.objects, ho]
  have hcells : ∀ b, .destroyCell b ∈ more ↔ b ∈ (s.objects o).members := by
    simp [hlast.more]
  have hslots : ∀ j, .reclaimSlot j ∈ more ++ ws → j = i ∨ .reclaimSlot j ∈ ws := by
    simp [hlast.more]
  refine ⟨?_, ?_, ?_, ?_, hinv.nodup_last hmem hactive hlast.more,
    hlast.dangling.trans hinv.alive⟩
  · rw [hlast.cells, hlast.nextCell, hlast.objects]
    exact hinv.cells.destroy hactive hstale hcells
  · rw [hlast.slotCount, hlast.freelist, hlast.memoryAt, hstate]
    exact hinv.slots.clear hmem (by rintro ⟨⟩) hslots
  · exact hinv.counts.destroy hinv.slots hmem hnone hinv.cells.lt hlast.memoryAt hstate
      hlast.cells hlast.nextCell hlast.refcount
  · rw [hlast.nextObject, hlast.lifecycles, hstate]
    exact hinv.history.destroy hactive

/-- A slot goes to the free list. -/
theorem Inv.reclaimSlot (hinv : Inv stale none s (.reclaimSlot i :: ws)) :
    Inv stale none (s.reclaimSlot i) ws := by
  obtain ⟨hnot, hnodup⟩ := List.nodup_cons.mp hinv.nodup
  obtain ⟨hmem, hfree, hlt⟩ := hinv.slots.work i List.mem_cons_self
  have hmemory : (s.reclaimSlot i).memoryAt = s.memoryAt := by
    funext j
    by_cases hj : j = i
    · rw [hj, hmem]
      simp [State.memoryAt, State.reclaimSlot, State.setSlot]
    · simp [State.memoryAt, State.reclaimSlot, State.setSlot, hj]
  have hrefcount : ∀ j, ((s.reclaimSlot i).slots j).refcount = (s.slots j).refcount := by
    intro j
    by_cases hj : j = i
    · subst hj
      simp [State.reclaimSlot, State.setSlot]
    · simp [State.reclaimSlot, State.setSlot, hj]
  refine ⟨?_, ?_, ?_, hinv.history, hnodup, hinv.alive⟩
  · obtain ⟨hlt, howned, hmember, hmembers, hwork⟩ := hinv.cells
    refine ⟨hlt, fun b o hb ho => (howned b o hb ho).imp id fun hw => ?_, ?_, hmembers, ?_⟩
    · exact (List.mem_cons.mp hw).resolve_left nofun
    · intro o hact b hb
      obtain ⟨halive, ho, hw⟩ := hmember o hact b hb
      exact ⟨halive, ho, fun hw' => hw (List.mem_cons_of_mem _ hw')⟩
    · exact fun b hw => hwork b (List.mem_cons_of_mem _ hw)
  · rw [hmemory]
    exact hinv.slots.reclaim hnot
  · exact hinv.counts.congr rfl rfl hrefcount (fun o => Iff.rfl) fun j o _ => by rw [hmemory]

end Ctorium.Prototype
