import Ctorium.Lib.Machine
import Mathlib.Data.Finset.Card
import Mathlib.Logic.Function.Basic

/-!
# The end of the prototype store

A `PrototypeStore` outlives its registry as long as handles to prototypes exist. The
registry gives up its hold when it is destroyed (`markRegistryDeadAndReleaseHold`), each
last handle gives its slot back (`releaseIfPrototype`), and both then run
`tryDeleteIfUnused`, which deletes the store if the registry is dead and no slot is live.

Every access to a field of the store is one step here, and the steps of the registry and
of any number of threads interleave. `Freelist` models what a push onto the free list reads
and writes; here it is three accesses. `Prototype.Handover` takes the counters over from
the registry that is alive.

* The store is deleted at most once, when the registry is dead and all slots have been
  released; when all handles are gone and nothing is under way, it has been deleted.
* No party uses the deleted store if whoever deletes it finds no other party inside
  `tryDeleteIfUnused` (`deleted_once_and_last`).
* Without this condition a thread that has released the last slot reads the store after
  the registry has deleted it (`read_after_delete`).
-/

namespace Ctorium.Deletion

open Function

abbrev SlotId := ℕ

/-- Who runs the steps: the destructor of the registry, or a thread that drops handles. -/
inductive Party
  | registry
  | thread (t : ℕ)
  deriving DecidableEq, Repr

/-- The access to the store that a party makes next. -/
inductive Pc
  /-- Nothing is under way, or the destructor of the registry has left the store. -/
  | idle
  /-- `markRegistryDeadAndReleaseHold` is about to store `alive`. -/
  | markDead
  /-- `releaseAcquire` has returned true; `alive` is loaded next. -/
  | lastReference (i : SlotId)
  /-- `takeSlotMetaForDestruction`, on behalf of a registry that is alive. -/
  | takeMeta (i : SlotId)
  /-- `reclaimSlot` is about to clear the memory of the slot and to advance its generation. -/
  | clearMeta (i : SlotId)
  /-- `reclaimSlot` pushes the slot onto the free list. -/
  | pushLoad (i : SlotId)
  | pushStore (i : SlotId)
  | pushCas (i : SlotId)
  /-- `releaseLiveSlot` is about to decrement `liveSlotCount`. -/
  | decrement (i : SlotId)
  /-- `tryDeleteIfUnused` is about to load `liveSlotCount`, to load `alive`, to exchange
      `deleteClaimed_`, or to delete the store. -/
  | tryLive
  | tryAlive
  | tryClaim
  | delete
  deriving DecidableEq, Repr

/-- The slot that the party is giving back. -/
def Pc.slot : Pc → Option SlotId
  | .lastReference i | .takeMeta i | .clearMeta i | .pushLoad i | .pushStore i | .pushCas i
  | .decrement i => some i
  | _ => none

/-- The party is inside `tryDeleteIfUnused`. -/
def Pc.trying : Pc → Bool
  | .tryLive | .tryAlive | .tryClaim | .delete => true
  | _ => false

/-- The fields of the store that decide about its end, and the parties. -/
structure State where
  /-- The handles of each slot, which are what its `refcount` counts. -/
  refcount : SlotId → ℕ
  liveSlotCount : ℕ
  alive : Bool := true
  deleteClaimed : Bool := false
  pcs : Party → Pc
  /-- The slots that are still counted as live (history). -/
  unreleased : Finset SlotId
  /-- How often `delete this` has been executed (history). -/
  deletes : ℕ := 0
  /-- A field has been accessed after that (history). -/
  usedAfterDelete : Bool := false

namespace State

/-- A party goes on to its next access. -/
def goto (s : State) (p : Party) (pc : Pc) : State := { s with pcs := update s.pcs p pc }

/-- An access to a field of the store. -/
def access (s : State) : State :=
  { s with usedAfterDelete := s.usedAfterDelete || decide (0 < s.deletes) }

/-- `releaseAcquire`: a handle of the slot goes, and the last one starts to give the slot back. -/
def release (s : State) (p : Party) (i : SlotId) : State :=
  { s.access.goto p (if s.refcount i = 1 then .lastReference i else .idle) with
    refcount := update s.refcount i (s.refcount i - 1) }

/-- `releaseLiveSlot`. -/
def releaseLiveSlot (s : State) (p : Party) (i : SlotId) : State :=
  { s.access.goto p (if s.liveSlotCount = 1 then .tryLive else .idle) with
    liveSlotCount := s.liveSlotCount - 1
    unreleased := s.unreleased.erase i }

def markDead (s : State) (p : Party) : State :=
  { s.access.goto p .tryLive with alive := false }

/-- The exchange of `deleteClaimed_`. -/
def claim (s : State) (p : Party) : State :=
  { s.access.goto p (if s.deleteClaimed then .idle else .delete) with deleteClaimed := true }

def deleteThis (s : State) (p : Party) : State :=
  { s.access.goto p .idle with deletes := s.deletes + 1 }

end State

inductive Action
  /-- A thread drops a handle of the slot. -/
  | release (t : ℕ) (i : SlotId)
  /-- A party makes its next access; a weak compare-and-swap may fail. -/
  | advance (p : Party) (swapped : Bool)
  deriving DecidableEq, Repr

/-- One atomic step. -/
def step (s : State) : Action → Option State
  | .release t i =>
    if s.pcs (.thread t) = .idle ∧ 0 < s.refcount i then some (s.release (.thread t) i) else none
  | .advance p swapped =>
    match s.pcs p with
    | .idle => none
    | .markDead => some (s.markDead p)
    | .lastReference i => some (s.access.goto p (if s.alive then .takeMeta i else .clearMeta i))
    | .takeMeta i => some (s.access.goto p (.clearMeta i))
    | .clearMeta i => some (s.access.goto p (.pushLoad i))
    | .pushLoad i => some (s.access.goto p (.pushStore i))
    | .pushStore i => some (s.access.goto p (.pushCas i))
    | .pushCas i => some (s.access.goto p (if swapped then .decrement i else .pushStore i))
    | .decrement i => some (s.releaseLiveSlot p i)
    | .tryLive => some (s.access.goto p (if s.liveSlotCount = 0 then .tryAlive else .idle))
    | .tryAlive => some (s.access.goto p (if s.alive then .idle else .tryClaim))
    | .tryClaim => some (s.claim p)
    | .delete => some (s.deleteThis p)

/-- The registry is about to give up its hold, and every live slot has handles. -/
def initial (refcount : SlotId → ℕ) (slots : Finset SlotId) : State where
  refcount := refcount
  liveSlotCount := slots.card
  pcs p := if p = .registry then .markDead else .idle
  unreleased := slots

/-- The machine that interleaves the destruction of the registry with the threads. -/
def machine : Machine State Action where
  Init s := ∃ refcount slots, (∀ i, 0 < refcount i ↔ i ∈ slots) ∧ s = initial refcount slots
  step := step

/-- Who deletes the store finds no other party inside `tryDeleteIfUnused`. -/
def DeletesAlone (s : State) : Action → Prop
  | .advance p _ => s.pcs p = .delete → ∀ q, q ≠ p → (s.pcs q).trying = false
  | .release .. => True

/-- Nothing is under way, and no handle is left. -/
def Finished (s : State) : Prop := (∀ p, s.pcs p = .idle) ∧ ∀ i, s.refcount i = 0

/-- The store is deleted once, and never used afterwards. -/
structure DeletedOnceAndLast (s : State) : Prop where
  once : s.deletes ≤ 1
  unused : s.usedAfterDelete = false
  /-- When it is deleted, the registry is dead and every slot has been released. -/
  released : 0 < s.deletes → s.alive = false ∧ s.unreleased = ∅ ∧ ∀ i, s.refcount i = 0
  completed : Finished s → s.deletes = 1

/-! ## The invariant -/

/-- A slot that is counted as live has handles, or one party that gives it back. -/
structure Owned (s : State) : Prop where
  count : s.liveSlotCount = s.unreleased.card
  handles : ∀ i, 0 < s.refcount i → i ∈ s.unreleased
  holds : ∀ p i, (s.pcs p).slot = some i → i ∈ s.unreleased ∧ s.refcount i = 0 ∧
    ∀ q, (s.pcs q).slot = some i → q = p
  owned : ∀ i ∈ s.unreleased, 0 < s.refcount i ∨ ∃ p, (s.pcs p).slot = some i

/-- What the parties inside `tryDeleteIfUnused` know. -/
structure Decided (s : State) : Prop where
  marking : ∀ p, s.pcs p = .markDead ↔ p = .registry ∧ s.alive = true
  /-- Only the registry tries to delete the store before all slots have been released, and it
      finds that out first. -/
  trying : ∀ p, (s.pcs p).trying = true → p = .registry ∧ s.pcs p = .tryLive ∨ s.unreleased = ∅
  dead : ∀ p, s.pcs p = .tryClaim ∨ s.pcs p = .delete → s.alive = false
  /-- Until the deletion is claimed, somebody is about to find the store unused. -/
  pending : s.alive = false → s.unreleased = ∅ → s.deleteClaimed = false →
    ∃ p, (s.pcs p).trying = true
  claimed : s.deleteClaimed = true ↔ 0 < s.deletes ∨ ∃ p, s.pcs p = .delete
  claimer : ∀ p q, s.pcs p = .delete → s.pcs q = .delete → q = p
  once : s.deletes ≤ 1
  deleted : 0 < s.deletes → s.alive = false ∧ s.unreleased = ∅ ∧ ∀ p, s.pcs p = .idle
  unused : s.usedAfterDelete = false

/-- What holds in every state. -/
structure Inv (s : State) : Prop extends Owned s, Decided s

variable {s t : State} {p q : Party}

@[simp] theorem goto_pcs (pc : Pc) : (s.goto p pc).pcs = update s.pcs p pc := rfl

/-- The accesses of `releaseIfPrototype` and of `tryDeleteIfUnused` are different ones. -/
theorem Pc.of_slot {pc : Pc} {i : SlotId} (h : pc.slot = some i) :
    pc.trying = false ∧ pc ≠ .markDead ∧ pc ≠ .delete ∧ pc ≠ .tryClaim ∧ pc ≠ .idle := by
  cases pc with
  | idle | markDead | tryLive | tryAlive | tryClaim | delete => cases h
  | lastReference | takeMeta | clearMeta | pushLoad | pushStore | pushCas | decrement =>
    exact ⟨rfl, nofun, nofun, nofun, nofun⟩

/-- The access of a party after another one has gone on. -/
theorem update_cases (pcs : Party → Pc) (p q : Party) (pc : Pc) :
    q = p ∧ update pcs p pc q = pc ∨ q ≠ p ∧ update pcs p pc q = pcs q := by
  by_cases hq : q = p
  · exact .inl ⟨hq, hq ▸ update_self ..⟩
  · exact .inr ⟨hq, update_of_ne hq ..⟩

theorem initial_inv {refcount : SlotId → ℕ} {slots : Finset SlotId}
    (h : ∀ i, 0 < refcount i ↔ i ∈ slots) : Inv (initial refcount slots) := by
  have hpc : ∀ p, (initial refcount slots).pcs p = .markDead ∧ p = .registry ∨
      (initial refcount slots).pcs p = .idle ∧ p ≠ .registry := by
    intro p
    by_cases hp : p = .registry
    · exact .inl ⟨if_pos hp, hp⟩
    · exact .inr ⟨if_neg hp, hp⟩
  refine ⟨⟨rfl, fun i hi => (h i).mp hi, fun p i hi => ?_, fun i hi => .inl ((h i).mpr hi)⟩,
    ⟨fun p => ?_, fun p hp => ?_, fun p hp => ?_, nofun, ⟨nofun, ?_⟩, fun p q hp _ => ?_,
    Nat.zero_le _, nofun, rfl⟩⟩
  · rcases hpc p with ⟨hp, -⟩ | ⟨hp, -⟩ <;> rw [hp] at hi <;> cases hi
  · rcases hpc p with ⟨hp, hreg⟩ | ⟨hp, hreg⟩
    · exact iff_of_true hp ⟨hreg, rfl⟩
    · refine ⟨fun hm => ?_, fun hm => absurd hm.1 hreg⟩
      cases hp.symm.trans hm
  · rcases hpc p with ⟨hp', -⟩ | ⟨hp', -⟩ <;> rw [hp'] at hp <;> cases hp
  · rcases hpc p with ⟨hp', -⟩ | ⟨hp', -⟩ <;> rw [hp'] at hp <;> rcases hp with hp | hp <;> cases hp
  · rintro (hd | ⟨p, hp⟩)
    · cases hd
    · rcases hpc p with ⟨hp', -⟩ | ⟨hp', -⟩ <;> rw [hp'] at hp <;> cases hp
  · rcases hpc p with ⟨hp', -⟩ | ⟨hp', -⟩ <;> rw [hp'] at hp <;> cases hp

/-- Nobody takes a step once the store has been deleted. -/
theorem Inv.not_deleted (h : Inv s) (hp : s.pcs p ≠ .idle) : s.deletes = 0 := by
  by_contra hd
  exact hp ((h.deleted (Nat.pos_of_ne_zero hd)).2.2 p)

theorem Inv.not_deleted_of_handle (h : Inv s) {i : SlotId} (hi : 0 < s.refcount i) :
    s.deletes = 0 := by
  by_contra hd
  have hmem := h.handles i hi
  rw [(h.deleted (Nat.pos_of_ne_zero hd)).2.1] at hmem
  exact Finset.notMem_empty i hmem

theorem Inv.access_eq (h : Inv s) (hd : s.deletes = 0) : s.access = s := by
  have hused : (s.usedAfterDelete || decide (0 < s.deletes)) = s.usedAfterDelete := by
    rw [hd, h.unused]
    rfl
  rw [State.access, hused]

/-! ## The steps -/

/-- A party goes on, and keeps the slot that it is giving back. -/
theorem Owned.goto (h : Owned s) {pc : Pc} (hslot : pc.slot = (s.pcs p).slot) :
    Owned (s.goto p pc) := by
  have hslots : ∀ q, (update s.pcs p pc q).slot = (s.pcs q).slot := by
    intro q
    rcases update_cases s.pcs p q pc with ⟨rfl, hq⟩ | ⟨-, hq⟩
    · rw [hq, hslot]
    · rw [hq]
  refine ⟨h.count, h.handles, fun q i hi => ?_, fun i hi => ?_⟩
  · simp only [goto_pcs, hslots] at hi ⊢
    exact h.holds q i hi
  · simp only [goto_pcs, hslots]
    exact h.owned i hi

/-- A party goes on that does not begin or end the deletion. -/
theorem Decided.goto (h : Decided s) (hd : s.deletes = 0) {pc : Pc}
    (hmark : pc ≠ .markDead ∧ s.pcs p ≠ .markDead) (hdelete : pc ≠ .delete ∧ s.pcs p ≠ .delete)
    (htrying : pc.trying = true → p = .registry ∧ pc = .tryLive ∨ s.unreleased = ∅)
    (hdead : pc = .tryClaim → s.alive = false)
    (hpending : (s.pcs p).trying = true → pc.trying = true ∨ s.alive = true ∨
      s.unreleased ≠ ∅ ∨ s.deleteClaimed = true) : Decided (s.goto p pc) := by
  have hdeletes : ∀ q, update s.pcs p pc q = .delete ↔ s.pcs q = .delete := by
    intro q
    rcases update_cases s.pcs p q pc with ⟨rfl, hq⟩ | ⟨-, hq⟩
    · rw [hq]
      exact iff_of_false hdelete.1 hdelete.2
    · rw [hq]
  refine ⟨fun q => ?_, fun q hq => ?_, fun q hq => ?_, fun ha hu hc => ?_, ?_,
    fun q q' hq hq' => h.claimer q q' ((hdeletes q).mp hq) ((hdeletes q').mp hq'), h.once,
    fun hpos => absurd hd hpos.ne', h.unused⟩
  · rw [goto_pcs]
    rcases update_cases s.pcs p q pc with ⟨rfl, heq⟩ | ⟨-, heq⟩ <;> rw [heq]
    · exact iff_of_false hmark.1 fun hm => hmark.2 ((h.marking q).mpr hm)
    · exact h.marking q
  · rw [goto_pcs] at hq ⊢
    rcases update_cases s.pcs p q pc with ⟨rfl, heq⟩ | ⟨-, heq⟩ <;> rw [heq] at hq ⊢
    · exact htrying hq
    · exact h.trying q hq
  · rw [goto_pcs] at hq
    rcases update_cases s.pcs p q pc with ⟨rfl, heq⟩ | ⟨-, heq⟩ <;> rw [heq] at hq
    · exact hdead (hq.resolve_right hdelete.1)
    · exact h.dead q hq
  -- Who was about to find the store unused is so still, or has found a reason not to be.
  · obtain ⟨q, hq⟩ := h.pending ha hu hc
    refine ⟨q, ?_⟩
    rw [goto_pcs]
    rcases update_cases s.pcs p q pc with ⟨rfl, heq⟩ | ⟨-, heq⟩ <;> rw [heq]
    · rcases hpending hq with htry | halive | hne | hclaimed
      · exact htry
      · exact absurd (ha.symm.trans halive) nofun
      · exact absurd hu hne
      · exact absurd (hc.symm.trans hclaimed) nofun
    · exact hq
  · simp only [goto_pcs, hdeletes]
    exact h.claimed

/-- A party that gives back a slot makes the next access to it. -/
theorem Inv.carry (h : Inv s) {i : SlotId} (hi : (s.pcs p).slot = some i) {pc : Pc}
    (hpc : pc.slot = some i) : Inv (s.access.goto p pc) := by
  obtain ⟨htry, hmark, hdelete, hclaim, -⟩ := Pc.of_slot hpc
  obtain ⟨htry', hmark', hdelete', -, hidle⟩ := Pc.of_slot hi
  have hd := h.not_deleted hidle
  rw [h.access_eq hd]
  refine ⟨h.toOwned.goto (hpc.trans hi.symm), h.toDecided.goto hd ⟨hmark, hmark'⟩
    ⟨hdelete, hdelete'⟩ ?_ (fun hc => absurd hc hclaim) ?_⟩
  · rw [htry]
    exact nofun
  · rw [htry']
    exact nofun

/-- A handle of a slot goes. -/
theorem Inv.release (h : Inv s) {i : SlotId} {k : ℕ} (hidle : s.pcs (.thread k) = .idle)
    (hi : 0 < s.refcount i) : Inv (s.release (.thread k) i) := by
  have hd := h.not_deleted_of_handle hi
  have hmem := h.handles i hi
  have hfree : ∀ q, (s.pcs q).slot ≠ some i := fun q hq => by
    rw [(h.holds q i hq).2.1] at hi
    exact lt_irrefl 0 hi
  rw [State.release, h.access_eq hd]
  generalize hpc : (if s.refcount i = 1 then Pc.lastReference i else .idle) = pc
  -- Whether this is the last handle of the slot.
  have hcases : s.refcount i = 1 ∧ pc = .lastReference i ∨ 1 < s.refcount i ∧ pc = .idle := by
    rw [← hpc]
    split_ifs with hone
    · exact .inl ⟨hone, rfl⟩
    · exact .inr ⟨by omega, rfl⟩
  have hslot : ∀ j, pc.slot = some j → j = i ∧ s.refcount i = 1 := by
    intro j hj
    rcases hcases with ⟨hone, rfl⟩ | ⟨-, rfl⟩
    · exact ⟨(Option.some.inj hj).symm, hone⟩
    · cases hj
  refine ⟨⟨h.count, fun j hj => ?_, fun q j hq => ?_, fun j hj => ?_⟩, ?_⟩
  · by_cases hji : j = i
    · exact hji ▸ hmem
    · exact h.handles j (by simpa [hji] using hj)
  · simp only [goto_pcs] at hq ⊢
    rcases update_cases s.pcs (.thread k) q pc with ⟨rfl, heq⟩ | ⟨hne, heq⟩ <;> rw [heq] at hq
    · obtain ⟨rfl, hone⟩ := hslot j hq
      refine ⟨hmem, by rw [update_self, hone], fun q' hq' => ?_⟩
      rcases update_cases s.pcs (.thread k) q' pc with ⟨rfl, -⟩ | ⟨-, heq'⟩
      · rfl
      · exact absurd (heq' ▸ hq') (hfree q')
    · have hji : j ≠ i := fun hji => hfree q (hji ▸ hq)
      refine ⟨(h.holds q j hq).1, by rw [update_of_ne hji, (h.holds q j hq).2.1], fun q' hq' => ?_⟩
      rcases update_cases s.pcs (.thread k) q' pc with ⟨rfl, heq'⟩ | ⟨-, heq'⟩ <;> rw [heq'] at hq'
      · exact absurd (hslot j hq').1 hji
      · exact (h.holds q j hq).2.2 q' hq'
  -- The slot is counted as live as before: by its other handles, or by this thread.
  · by_cases hji : j = i
    · subst hji
      rcases hcases with ⟨-, rfl⟩ | ⟨hmore, -⟩
      · refine .inr ⟨.thread k, ?_⟩
        change (update s.pcs (.thread k) _ (.thread k)).slot = some j
        rw [update_self]
        rfl
      · refine .inl ?_
        change 0 < update s.refcount j _ j
        rw [update_self]
        omega
    · refine (h.owned j hj).imp (fun hpos => by simpa [hji] using hpos) fun ⟨q, hq⟩ => ⟨q, ?_⟩
      have hne : q ≠ .thread k := by
        rintro rfl
        rw [hidle] at hq
        cases hq
      change (update s.pcs (.thread k) pc q).slot = some j
      rw [update_of_ne hne]
      exact hq
  · have hgo : Decided (s.goto (.thread k) pc) := by
      have hpc' : pc.trying = false ∧ pc ≠ .markDead ∧ pc ≠ .delete ∧ pc ≠ .tryClaim := by
        rcases hcases with ⟨-, rfl⟩ | ⟨-, rfl⟩ <;> exact ⟨rfl, nofun, nofun, nofun⟩
      refine h.toDecided.goto hd ⟨hpc'.2.1, ?_⟩ ⟨hpc'.2.2.1, ?_⟩ ?_ (absurd · hpc'.2.2.2) ?_
      · rw [hidle]
        exact nofun
      · rw [hidle]
        exact nofun
      · rw [hpc'.1]
        exact nofun
      · rw [hidle]
        exact nofun
    exact ⟨hgo.1, hgo.2, hgo.3, hgo.4, hgo.5, hgo.6, hgo.7, hgo.8, hgo.9⟩

/-- `releaseLiveSlot` gives a slot back. -/
theorem Inv.releaseLiveSlot (h : Inv s) {i : SlotId} (hpc : s.pcs p = .decrement i) :
    Inv (s.releaseLiveSlot p i) := by
  have hi : (s.pcs p).slot = some i := by rw [hpc]; rfl
  have hd := h.not_deleted (Pc.of_slot hi).2.2.2.2
  obtain ⟨hmem, hzero, honly⟩ := h.holds p i hi
  have hcard := Finset.card_erase_of_mem hmem
  have hpos : 0 < s.unreleased.card := Finset.card_pos.mpr ⟨i, hmem⟩
  have hempty : s.unreleased.erase i = ∅ ↔ s.liveSlotCount = 1 := by
    rw [← Finset.card_eq_zero, hcard, h.count]
    omega
  rw [State.releaseLiveSlot, h.access_eq hd]
  generalize hpc' : (if s.liveSlotCount = 1 then Pc.tryLive else .idle) = pc
  have hcases : s.liveSlotCount = 1 ∧ pc = .tryLive ∨ s.liveSlotCount ≠ 1 ∧ pc = .idle := by
    rw [← hpc']
    split_ifs with hone
    · exact .inl ⟨hone, rfl⟩
    · exact .inr ⟨hone, rfl⟩
  have hslot : pc.slot = none ∧ pc ≠ .markDead ∧ pc ≠ .delete ∧ pc ≠ .tryClaim := by
    rcases hcases with ⟨-, rfl⟩ | ⟨-, rfl⟩ <;> exact ⟨rfl, nofun, nofun, nofun⟩
  refine ⟨⟨?_, fun j hj => ?_, fun q j hq => ?_, fun j hj => ?_⟩, ⟨fun q => ?_, fun q hq => ?_,
    fun q hq => ?_, fun ha hu hc => ?_, ?_, fun q q' hq hq' => ?_, h.once,
    fun hpos => absurd hd hpos.ne', h.unused⟩⟩
  · exact (congrArg (· - 1) h.count).trans hcard.symm
  · refine Finset.mem_erase.mpr ⟨?_, h.handles j hj⟩
    rintro rfl
    exact hj.ne' hzero
  · simp only [goto_pcs] at hq ⊢
    rcases update_cases s.pcs p q pc with ⟨rfl, heq⟩ | ⟨hne, heq⟩ <;> rw [heq] at hq
    · rw [hslot.1] at hq
      cases hq
    · obtain ⟨hj, hjzero, hjonly⟩ := h.holds q j hq
      refine ⟨Finset.mem_erase.mpr ⟨?_, hj⟩, hjzero, fun q' hq' => ?_⟩
      · rintro rfl
        exact hne (honly q hq)
      · rcases update_cases s.pcs p q' pc with ⟨rfl, heq'⟩ | ⟨-, heq'⟩ <;> rw [heq'] at hq'
        · rw [hslot.1] at hq'
          cases hq'
        · exact hjonly q' hq'
  · obtain ⟨hji, hj⟩ := Finset.mem_erase.mp hj
    refine (h.owned j hj).imp_right fun ⟨q, hq⟩ => ⟨q, ?_⟩
    have hne : q ≠ p := by
      rintro rfl
      exact hji (Option.some.inj (hq.symm.trans hi))
    change (update s.pcs p pc q).slot = some j
    rw [update_of_ne hne, hq]
  · change update s.pcs p pc q = .markDead ↔ q = .registry ∧ s.alive = true
    rcases update_cases s.pcs p q pc with ⟨rfl, heq⟩ | ⟨-, heq⟩ <;> rw [heq]
    · refine iff_of_false hslot.2.1 fun hm => ?_
      cases hpc.symm.trans ((h.marking q).mpr hm)
    · exact h.marking q
  · change (update s.pcs p pc q).trying = true at hq
    rcases update_cases s.pcs p q pc with ⟨rfl, heq⟩ | ⟨-, heq⟩
    · -- A party finds the count at 1 only when it gives back the last slot.
      rw [heq] at hq
      rcases hcases with ⟨hone, -⟩ | ⟨-, rfl⟩
      · exact .inr (hempty.mpr hone)
      · cases hq
    · rw [heq] at hq
      refine (h.trying q hq).imp (fun ⟨hreg, htry⟩ => ⟨hreg, heq.trans htry⟩) fun hnone => ?_
      change s.unreleased.erase i = ∅
      rw [hnone, Finset.erase_empty]
  · change update s.pcs p pc q = .tryClaim ∨ update s.pcs p pc q = .delete at hq
    rcases update_cases s.pcs p q pc with ⟨rfl, heq⟩ | ⟨-, heq⟩ <;> rw [heq] at hq
    · exact absurd hq (not_or.mpr ⟨hslot.2.2.2, hslot.2.2.1⟩)
    · exact h.dead q hq
  · refine ⟨p, ?_⟩
    change (update s.pcs p pc p).trying = true
    rcases hcases with ⟨-, rfl⟩ | ⟨hone, -⟩
    · rw [update_self]
      rfl
    · exact absurd (hempty.mp hu) hone
  · change s.deleteClaimed = true ↔ 0 < s.deletes ∨ ∃ q, update s.pcs p pc q = .delete
    rw [h.claimed]
    refine or_congr_right (exists_congr fun q => ?_)
    rcases update_cases s.pcs p q pc with ⟨rfl, heq⟩ | ⟨-, heq⟩ <;> rw [heq]
    exact iff_of_false (hpc ▸ nofun) hslot.2.2.1
  · change update s.pcs p pc q = .delete at hq
    change update s.pcs p pc q' = .delete at hq'
    rcases update_cases s.pcs p q pc with ⟨rfl, heq⟩ | ⟨-, heq⟩ <;> rw [heq] at hq
    · exact absurd hq hslot.2.2.1
    · rcases update_cases s.pcs p q' pc with ⟨rfl, heq'⟩ | ⟨-, heq'⟩ <;> rw [heq'] at hq'
      · exact absurd hq' hslot.2.2.1
      · exact h.claimer q q' hq hq'

/-- The registry dies. -/
theorem Inv.markDead (h : Inv s) (hpc : s.pcs p = .markDead) : Inv (s.markDead p) := by
  have hd := h.not_deleted (p := p) (hpc ▸ nofun)
  obtain ⟨rfl, halive⟩ := (h.marking p).mp hpc
  rw [State.markDead, h.access_eq hd]
  have howned : Owned (s.goto .registry .tryLive) := h.toOwned.goto (by rw [hpc]; rfl)
  -- Nobody has got to the claim, since the registry was alive.
  have hother : ∀ q, s.pcs q ≠ .tryClaim ∧ s.pcs q ≠ .delete := fun q =>
    not_or.mp fun hq => absurd ((h.dead q hq).symm.trans halive) nofun
  refine ⟨⟨howned.1, howned.2, howned.3, howned.4⟩, ⟨fun q => ?_, fun q hq => ?_, fun _ _ => rfl,
    fun _ _ _ => ⟨.registry, ?_⟩, ?_, fun q q' hq => ?_, h.once, fun hpos => absurd hd hpos.ne',
    h.unused⟩⟩
  · change update s.pcs .registry .tryLive q = .markDead ↔ q = .registry ∧ false = true
    refine iff_of_false (fun hq => ?_) (fun hq => Bool.false_ne_true hq.2)
    rcases update_cases s.pcs .registry q .tryLive with ⟨-, heq⟩ | ⟨hne, heq⟩ <;> rw [heq] at hq
    · cases hq
    · exact hne ((h.marking q).mp hq).1
  · change (update s.pcs .registry .tryLive q).trying = true at hq
    rcases update_cases s.pcs .registry q .tryLive with ⟨rfl, heq⟩ | ⟨hne, heq⟩
    · exact .inl ⟨rfl, heq⟩
    · rw [heq] at hq
      exact .inr ((h.trying q hq).resolve_left fun hreg => hne hreg.1)
  · change (update s.pcs .registry .tryLive .registry).trying = true
    rw [update_self]
    rfl
  · change s.deleteClaimed = true ↔ 0 < s.deletes ∨ ∃ q, update s.pcs .registry .tryLive q = .delete
    rw [h.claimed]
    refine or_congr_right (exists_congr fun q => ?_)
    rcases update_cases s.pcs .registry q .tryLive with ⟨-, heq⟩ | ⟨-, heq⟩ <;> rw [heq]
    exact iff_of_false (hother q).2 nofun
  · change update s.pcs .registry .tryLive q = .delete at hq
    rcases update_cases s.pcs .registry q .tryLive with ⟨-, heq⟩ | ⟨-, heq⟩ <;> rw [heq] at hq
    · cases hq
    · exact absurd hq (hother q).2

/-- A party claims the deletion, or finds it claimed. -/
theorem Inv.claim (h : Inv s) (hpc : s.pcs p = .tryClaim) : Inv (s.claim p) := by
  have hd := h.not_deleted (p := p) (hpc ▸ nofun)
  have hdead := h.dead p (.inl hpc)
  have hempty : s.unreleased = ∅ := (h.trying p (hpc ▸ rfl)).resolve_left fun hreg => by
    cases hpc.symm.trans hreg.2
  rw [State.claim, h.access_eq hd]
  -- Another party may have claimed the deletion first.
  cases hclaimed : s.deleteClaimed with
  | true =>
    simp only [if_true]
    have howned : Owned (s.goto p .idle) := h.toOwned.goto (by rw [hpc]; rfl)
    have hdecided : Decided (s.goto p .idle) := h.toDecided.goto hd ⟨nofun, hpc ▸ nofun⟩
      ⟨nofun, hpc ▸ nofun⟩ nofun nofun fun _ => .inr (.inr (.inr hclaimed))
    rw [← hclaimed]
    exact ⟨howned, hdecided⟩
  | false =>
    simp only [Bool.false_eq_true, if_false]
    have howned : Owned (s.goto p .delete) := h.toOwned.goto (by rw [hpc]; rfl)
    have hnone : ∀ q, s.pcs q ≠ .delete := fun q hq => by
      rw [h.claimed.mpr (.inr ⟨q, hq⟩)] at hclaimed
      cases hclaimed
    have honly : ∀ q, update s.pcs p .delete q = .delete → q = p := fun q hq => by
      rcases update_cases s.pcs p q .delete with ⟨hqp, -⟩ | ⟨-, heq⟩
      · exact hqp
      · exact absurd (heq.symm.trans hq) (hnone q)
    refine ⟨⟨howned.1, howned.2, howned.3, howned.4⟩, ⟨fun q => ?_, fun q hq => .inr hempty,
      fun _ _ => hdead, fun _ _ => nofun, iff_of_true rfl (.inr ⟨p, update_self ..⟩),
      fun q q' hq hq' => (honly q' hq').trans (honly q hq).symm, h.once,
      fun hpos => absurd hd hpos.ne', h.unused⟩⟩
    change update s.pcs p .delete q = .markDead ↔ q = .registry ∧ s.alive = true
    rw [hdead]
    refine iff_of_false (fun hq => ?_) (fun hq => Bool.false_ne_true hq.2)
    rcases update_cases s.pcs p q .delete with ⟨-, heq⟩ | ⟨-, heq⟩ <;> rw [heq] at hq
    · cases hq
    · rw [((h.marking q).mp hq).2] at hdead
      cases hdead

/-- The deletion, when no other party is inside `tryDeleteIfUnused`. -/
theorem Inv.deleteThis (h : Inv s) (hpc : s.pcs p = .delete)
    (halone : ∀ q, q ≠ p → (s.pcs q).trying = false) : Inv (s.deleteThis p) := by
  have hd := h.not_deleted (p := p) (hpc ▸ nofun)
  have hdead := h.dead p (.inr hpc)
  have hempty : s.unreleased = ∅ := (h.trying p (hpc ▸ rfl)).resolve_left fun hreg => by
    cases hpc.symm.trans hreg.2
  -- All slots have been released, so no party is at work on one of them.
  have hidle : ∀ q, update s.pcs p .idle q = .idle := by
    intro q
    rcases update_cases s.pcs p q .idle with ⟨-, heq⟩ | ⟨hne, heq⟩ <;> rw [heq]
    have htry := halone q hne
    -- A party with a slot would contradict this, and nobody else tries to delete.
    have hslot : ∀ i, (s.pcs q).slot ≠ some i := fun i hi => by
      have hmem := (h.holds q i hi).1
      rw [hempty] at hmem
      exact Finset.notMem_empty i hmem
    cases hq : s.pcs q with
    | idle => rfl
    | markDead =>
      rw [((h.marking q).mp hq).2] at hdead
      cases hdead
    | tryLive | tryAlive | tryClaim | delete =>
      rw [hq] at htry
      cases htry
    | lastReference i | takeMeta i | clearMeta i | pushLoad i | pushStore i | pushCas i
    | decrement i => exact absurd (congrArg Pc.slot hq) (hslot i)
  have howned : Owned (s.goto p .idle) := h.toOwned.goto (by rw [hpc]; rfl)
  rw [State.deleteThis, h.access_eq hd]
  refine ⟨⟨howned.1, howned.2, howned.3, howned.4⟩, ⟨fun q => ?_, fun q hq => .inr hempty,
    fun _ _ => hdead, fun _ _ hc => ?_, iff_of_true (h.claimed.mpr (.inr ⟨p, hpc⟩))
    (.inl (Nat.succ_pos _)), fun q q' hq => ?_, (congrArg Nat.succ hd).le,
    fun _ => ⟨hdead, hempty, hidle⟩, h.unused⟩⟩
  · refine iff_of_false (fun hq => ?_) (fun hq => ?_)
    · cases (hidle q).symm.trans hq
    · exact absurd (hdead.symm.trans hq.2) nofun
  · cases (h.claimed.mpr (.inr ⟨p, hpc⟩)).symm.trans hc
  · cases (hidle q).symm.trans hq

theorem Inv.step (h : Inv s) {a : Action} (halone : DeletesAlone s a) (hs : step s a = some t) :
    Inv t := by
  cases a with
  | release k i =>
    obtain ⟨⟨hidle, hi⟩, heq⟩ := Option.ite_none_right_eq_some.mp hs
    obtain rfl := Option.some.inj heq
    exact h.release hidle hi
  | advance p swapped =>
    -- By the access that the party makes; `carry` is the case of all accesses to one slot.
    rw [Deletion.step] at hs
    cases hpc : s.pcs p with
    | idle =>
      rw [hpc] at hs
      cases hs
    | markDead =>
      rw [hpc] at hs
      obtain rfl := Option.some.inj hs
      exact h.markDead hpc
    | lastReference i =>
      rw [hpc] at hs
      obtain rfl := Option.some.inj hs
      refine h.carry (i := i) (hpc ▸ rfl) ?_
      split_ifs <;> rfl
    | takeMeta i | clearMeta i | pushLoad i | pushStore i =>
      rw [hpc] at hs
      obtain rfl := Option.some.inj hs
      exact h.carry (i := i) (hpc ▸ rfl) rfl
    | pushCas i =>
      rw [hpc] at hs
      obtain rfl := Option.some.inj hs
      refine h.carry (i := i) (hpc ▸ rfl) ?_
      split_ifs <;> rfl
    | decrement i =>
      rw [hpc] at hs
      obtain rfl := Option.some.inj hs
      exact h.releaseLiveSlot hpc
    | tryLive =>
      rw [hpc] at hs
      obtain rfl := Option.some.inj hs
      have hd := h.not_deleted (p := p) (hpc ▸ nofun)
      rw [h.access_eq hd]
      -- No live slot is counted exactly if all have been released.
      split_ifs with hzero
      · have hempty : s.unreleased = ∅ := Finset.card_eq_zero.mp (h.count.symm.trans hzero)
        exact ⟨h.toOwned.goto (hpc ▸ rfl), h.toDecided.goto hd ⟨nofun, hpc ▸ nofun⟩
          ⟨nofun, hpc ▸ nofun⟩ (fun _ => .inr hempty) nofun fun _ => .inl rfl⟩
      · refine ⟨h.toOwned.goto (hpc ▸ rfl), h.toDecided.goto hd ⟨nofun, hpc ▸ nofun⟩
          ⟨nofun, hpc ▸ nofun⟩ nofun nofun fun _ => .inr (.inr (.inl fun hempty => hzero ?_))⟩
        rw [h.count, hempty, Finset.card_empty]
    | tryAlive =>
      rw [hpc] at hs
      obtain rfl := Option.some.inj hs
      have hd := h.not_deleted (p := p) (hpc ▸ nofun)
      have hempty : s.unreleased = ∅ := (h.trying p (hpc ▸ rfl)).resolve_left fun hreg => by
        cases hpc.symm.trans hreg.2
      rw [h.access_eq hd]
      split_ifs with halive
      · exact ⟨h.toOwned.goto (hpc ▸ rfl), h.toDecided.goto hd ⟨nofun, hpc ▸ nofun⟩
          ⟨nofun, hpc ▸ nofun⟩ nofun nofun fun _ => .inr (.inl halive)⟩
      · exact ⟨h.toOwned.goto (hpc ▸ rfl), h.toDecided.goto hd ⟨nofun, hpc ▸ nofun⟩
          ⟨nofun, hpc ▸ nofun⟩ (fun _ => .inr hempty)
          (fun _ => Bool.eq_false_of_not_eq_true halive) fun _ => .inl rfl⟩
    | tryClaim =>
      rw [hpc] at hs
      obtain rfl := Option.some.inj hs
      exact h.claim hpc
    | delete =>
      rw [hpc] at hs
      obtain rfl := Option.some.inj hs
      exact h.deleteThis hpc (halone hpc)

/-! ## Deletion -/

/-- In every run in which the deletions find no other party inside `tryDeleteIfUnused`, the store
    is deleted once, and never used afterwards. -/
theorem deleted_once_and_last {s : State} (h : machine.ReachableBy DeletesAlone s) :
    DeletedOnceAndLast s := by
  have hinv : Inv s := h.invariant
    (fun _ ⟨_, _, hslots, heq⟩ => heq ▸ initial_inv hslots) fun _ _ _ hs halone hstep =>
      hs.step halone hstep
  refine ⟨hinv.once, hinv.unused, fun hpos => ?_, fun ⟨hidle, hzero⟩ => ?_⟩
  · obtain ⟨hdead, hempty, -⟩ := hinv.deleted hpos
    refine ⟨hdead, hempty, fun i => Nat.eq_zero_of_not_pos fun hi => ?_⟩
    have hmem := hinv.handles i hi
    rw [hempty] at hmem
    exact Finset.notMem_empty i hmem
  · have hdead : s.alive = false := by
      cases halive : s.alive with
      | false => rfl
      | true => cases (hidle .registry).symm.trans ((hinv.marking .registry).mpr ⟨rfl, halive⟩)
    have hempty : s.unreleased = ∅ := by
      refine Finset.eq_empty_of_forall_notMem fun i hi => ?_
      rcases hinv.owned i hi with hpos | ⟨p, hp⟩
      · exact hpos.ne' (hzero i)
      · rw [hidle p] at hp
        cases hp
    -- Nobody is left who could delete the store, so that somebody has claimed the deletion.
    have hclaimed : s.deleteClaimed = true := by
      by_contra hnot
      obtain ⟨p, hp⟩ := hinv.pending hdead hempty (Bool.eq_false_of_not_eq_true hnot)
      rw [hidle p] at hp
      cases hp
    rcases hinv.claimed.mp hclaimed with hpos | ⟨p, hp⟩
    · exact Nat.le_antisymm hinv.once hpos
    · cases (hidle p).symm.trans hp

/-- The party that takes the step. -/
def Action.party : Action → Party
  | .release t _ => .thread t
  | .advance p _ => p

/-- A step leaves the other parties where they are. -/
theorem step_pcs_of_ne {a : Action} (hs : step s a = some t) (hq : q ≠ a.party) :
    t.pcs q = s.pcs q := by
  cases a with
  | release k i =>
    obtain ⟨-, heq⟩ := Option.ite_none_right_eq_some.mp hs
    obtain rfl := Option.some.inj heq
    exact update_of_ne hq ..
  | advance p swapped =>
    rw [Deletion.step] at hs
    split at hs
    · cases hs
    all_goals
      obtain rfl := Option.some.inj hs
      exact update_of_ne hq ..

theorem run_pcs_of_ne {as : List Action} (hr : machine.run s as = some t)
    (hq : ∀ a ∈ as, q ≠ a.party) : t.pcs q = s.pcs q := by
  induction as generalizing s with
  | nil => exact congrArg (State.pcs · q) (Option.some.inj hr).symm
  | cons a as ih =>
    obtain ⟨s₁, hs, hr⟩ := Option.bind_eq_some_iff.mp hr
    rw [ih hr fun b hb => hq b (List.mem_cons_of_mem _ hb)]
    exact step_pcs_of_ne hs (hq a List.mem_cons_self)

/-- One slot, with one handle. -/
def oneHandle : State := initial (fun i => if i = 0 then 1 else 0) {0}

theorem oneHandle_init : machine.Init oneHandle :=
  ⟨_, _, fun i => by by_cases hi : i = 0 <;> simp [hi], rfl⟩

/-- A thread drops the handle, and gives the slot back up to the decrement. -/
def dropHandle : List Action :=
  .release 0 0 :: List.replicate 6 (.advance (.thread 0) true)

/-- The registry is gone before the last handle, and the thread is about to delete the store. -/
def handleLast : List Action :=
  List.replicate 2 (.advance .registry true) ++ dropHandle ++
    List.replicate 3 (.advance (.thread 0) true)

theorem handleLast_deletes : ∃ s, machine.run oneHandle
    (handleLast ++ [.advance (.thread 0) true]) = some s ∧ s.deletes = 1 ∧
      DeletedOnceAndLast s := by
  obtain ⟨s, hs⟩ := Option.isSome_iff_exists.mp
    (by decide : (machine.run oneHandle handleLast).isSome = true)
  obtain ⟨t, ht⟩ := Option.isSome_iff_exists.mp (by decide : (machine.run oneHandle
    (handleLast ++ [.advance (.thread 0) true])).isSome = true)
  have hview : (machine.run oneHandle (handleLast ++ [.advance (.thread 0) true])).map
      State.deletes = some 1 := by decide
  have hregistry : (machine.run oneHandle handleLast).map (State.pcs · .registry) = some .idle := by
    decide
  have hearlier : machine.Along (fun s a => s.pcs a.party ≠ .delete) oneHandle handleLast := by
    decide
  rw [ht] at hview
  rw [hs] at hregistry
  -- No step before the last one deletes the store, so the condition holds along them.
  refine ⟨t, ht, Option.some.inj hview, deleted_once_and_last ?_⟩
  have hreach : machine.ReachableBy DeletesAlone s := by
    refine (Machine.ReachableBy.init oneHandle_init).run (hearlier.mono fun s a ha => ?_) hs
    cases a with
    | release t i => trivial
    | advance p swapped => exact fun hdelete => absurd hdelete ha
  rw [Machine.run_append hs] at ht
  obtain ⟨u, hu, heq⟩ := Option.bind_eq_some_iff.mp ht
  obtain rfl := Option.some.inj heq
  refine hreach.step (a := .advance (.thread 0) true) (fun _ q hq => ?_) hu
  cases q with
  | registry => exact congrArg Pc.trying (Option.some.inj hregistry)
  | thread k =>
    refine congrArg Pc.trying (run_pcs_of_ne hs fun a ha => ?_)
    rcases (by decide : ∀ a ∈ handleLast, a.party = .registry ∨ a.party = .thread 0) a ha with
      hparty | hparty <;> rw [hparty]
    · exact nofun
    · exact hq

/-- The registry deletes the store between the decrement of the thread and its load of the
    count. -/
def registryBetween : List Action :=
  .advance .registry true :: dropHandle ++ List.replicate 4 (.advance .registry true) ++
    [.advance (.thread 0) true]

/-- A thread that has released the last slot reads the store after its deletion. -/
theorem read_after_delete : ∃ s, machine.Reachable s ∧ s.usedAfterDelete = true := by
  obtain ⟨s, hs⟩ := Option.isSome_iff_exists.mp
    (by decide : (machine.run oneHandle registryBetween).isSome = true)
  have hused : (machine.run oneHandle registryBetween).map State.usedAfterDelete = some true := by
    decide
  rw [hs] at hused
  exact ⟨s, (Machine.Reachable.init oneHandle_init).run hs, Option.some.inj hused⟩

end Ctorium.Deletion
