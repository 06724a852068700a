import Ctorium.Freelist

/-!
# Who owns a prototype slot

A slot should be in exactly one place: owned by one thread, live, in transit in
one push, or once on the freelist (`Partitioned`). This holds as long as a pop
that finds the head word it has loaded finds a head that has not changed since
(`HeadUnchanged`, `partitioned_of_head_unchanged`).

The head word does not ensure this. A pop installs generation 0 whatever the
generation of the slot that comes to the top, so the same word can return with
another successor below it, and a pop that has slept in between installs a slot
that is in use (`aba_breaks_partition`).
-/

namespace Ctorium.Freelist

open Function

/-- The places of a slot. -/
inductive Place
  | owned (t : ThreadId)
  | live
  | transit (t : ThreadId)
  | free
  deriving DecidableEq

/-- The slot that an operation is pushing. -/
def Pc.transit : Pc → Option SlotId
  | .pushLoad slot _ | .pushStore slot _ _ | .pushCas slot _ _ => some slot
  | _ => none

/-- The slot is in the place; `chain` is the freelist. -/
def State.At (s : State) (chain : List SlotId) : Place → SlotId → Prop
  | .owned t, i => i ∈ (s.threads t).owned
  | .live, i => i ∈ s.live
  | .transit t, i => (s.threads t).pc.transit = some i
  | .free, i => i ∈ chain

/-- The freelist is `chain`, and every slot below `slotCount` is in one place, once. -/
structure Partition (s : State) (place : SlotId → Option Place) (chain : List SlotId) : Prop where
  linked : Linked s.nextFree s.head.slot chain
  chain_nodup : chain.Nodup
  owned_nodup : ∀ t, (s.threads t).owned.Nodup
  live_nodup : s.live.Nodup
  at_iff : ∀ p i, s.At chain p i ↔ place i = some p
  unused : ∀ i, place i = none ↔ s.slotCount ≤ i

/-- No slot has two owners, is owned and free, or is lost. -/
def Partitioned (s : State) : Prop := ∃ place chain, Partition s place chain

/-- What an operation in progress knows, if the head has not changed since it loaded it. -/
def Pc.Fresh (s : State) : Pc → Prop
  | .popNext g slot seen => seen ≤ s.version ∧ (seen = s.version → s.head = ⟨g, some slot⟩)
  | .popCas g slot next seen => seen ≤ s.version ∧
      (seen = s.version → s.head = ⟨g, some slot⟩ ∧ s.nextFree slot = next)
  | .pushCas slot _ current => s.nextFree slot = current.slot
  | _ => True

/-- The partition, and what the operations in progress know. -/
structure Inv (s : State) : Prop where
  partitioned : Partitioned s
  fresh : ∀ t, (s.threads t).pc.Fresh s

/-- A pop about to swap finds the word it has loaded only if the head has not changed since. -/
def HeadUnchanged (s : State) (a : Action) : Prop :=
  match a.act, (s.threads a.thread).pc with
  | .advance false, .popCas g slot _ seen => s.head = ⟨g, some slot⟩ → seen = s.version
  | _, _ => True

instance (s : State) (a : Action) : Decidable (HeadUnchanged s a) := by
  unfold HeadUnchanged
  split <;> infer_instance

/-- A pop that succeeds installs the current successor of the slot it pops. -/
def InstallsSuccessor (s : State) (a : Action) : Prop :=
  match a.act, (s.threads a.thread).pc with
  | .advance false, .popCas g slot next _ => s.head = ⟨g, some slot⟩ → next = s.nextFree slot
  | _, _ => True

section Preservation

variable {s s' : State} {t : ThreadId} {place : SlotId → Option Place} {chain : List SlotId}

@[simp] theorem setThread_threads (th : Thread) :
    (s.setThread t th).threads = update s.threads t th := rfl

@[simp] theorem setThread_live (th : Thread) : (s.setThread t th).live = s.live := rfl

@[simp] theorem transit_idle : Pc.idle.transit = none := rfl

@[simp] theorem transit_pushLoad (slot : SlotId) (g : UInt32) :
    (Pc.pushLoad slot g).transit = some slot := rfl

@[simp] theorem setPc_threads (pc : Pc) :
    (s.setPc t pc).threads = update s.threads t { s.threads t with pc := pc } := rfl

/-- A slot that is in one place is in no other. -/
theorem Partition.at_eq {i : SlotId} {p₀ : Place} (h : Partition s place chain)
    (hi : place i = some p₀) (p : Place) : s.At chain p i ↔ p = p₀ := by
  rw [h.at_iff, hi, Option.some.injEq, eq_comm]

/-- One slot moves to the place `q`, and every other slot stays where it is. -/
theorem at_iff_move {chain' : List SlotId} {i : SlotId} {q : Place}
    (h : ∀ p j, s.At chain p j ↔ place j = some p)
    (hother : ∀ p j, j ≠ i → (s'.At chain' p j ↔ s.At chain p j))
    (hi : ∀ p, s'.At chain' p i ↔ p = q) (p : Place) (j : SlotId) :
    s'.At chain' p j ↔ update place i (some q) j = some p := by
  by_cases hj : j = i
  · subst hj
    rw [hi, update_self, Option.some.injEq, eq_comm]
  · rw [hother p j hj, update_of_ne hj, h]

theorem unused_move {i n : ℕ} {q : Place} (h : ∀ j, place j = none ↔ n ≤ j) (hi : i < n) (j : ℕ) :
    update place i (some q) j = none ↔ n ≤ j := by
  by_cases hj : j = i
  · subst hj
    simpa using hi
  · rw [update_of_ne hj, h]

theorem Partition.lt_of_place {i : SlotId} {p : Place} (h : Partition s place chain)
    (hi : place i = some p) : i < s.slotCount := by
  by_contra hlt
  rw [(h.unused i).mpr (Nat.le_of_not_lt hlt)] at hi
  cases hi

/-- A thread changes its operation, and no slot moves. -/
theorem Partition.setPc {pc : Pc} (h : Partition s place chain)
    (hpc : pc.transit = (s.threads t).pc.transit) : Partition (s.setPc t pc) place chain where
  linked := h.linked
  chain_nodup := h.chain_nodup
  owned_nodup u := by
    by_cases hu : u = t
    · subst hu; simpa using h.owned_nodup u
    · simpa [hu] using h.owned_nodup u
  live_nodup := h.live_nodup
  at_iff p i := by
    rw [← h.at_iff p i]
    cases p with
    | owned u | transit u => by_cases hu : u = t <;> simp [State.At, hu, hpc]
    | live | free => exact Iff.rfl
  unused := h.unused

/-- A slot in transit is not on the freelist: its successor can change. -/
theorem Partition.setNextFree {slot : SlotId} (next : Option SlotId)
    (h : Partition s place chain) (hslot : (s.threads t).pc.transit = some slot) :
    Partition { s with nextFree := update s.nextFree slot next } place chain where
  linked := by
    refine h.linked.congr fun i hi => update_of_ne ?_ _ _
    rintro rfl
    have hplace : place i = some (.transit t) := (h.at_iff (.transit t) i).mp hslot
    cases (h.at_eq hplace .free).mp hi
  chain_nodup := h.chain_nodup
  owned_nodup := h.owned_nodup
  live_nodup := h.live_nodup
  at_iff p i := by
    rw [← h.at_iff p i]
    cases p <;> exact Iff.rfl
  unused := h.unused

/-- A pop takes the slot at the top of the freelist and installs its successor. -/
theorem Partition.pop {slot : SlotId} (h : Partition s place chain)
    (hslot : s.head.slot = some slot) (hpc : (s.threads t).pc.transit = none) :
    Partitioned { s.setThread t ⟨slot :: (s.threads t).owned, .idle⟩ with
      head := ⟨0, s.nextFree slot⟩, version := s.version + 1 } := by
  have hlinked := h.linked
  rw [hslot, Linked.some_iff] at hlinked
  obtain ⟨rest, rfl, hlinked⟩ := hlinked
  obtain ⟨hnot, hrest⟩ := List.nodup_cons.mp h.chain_nodup
  have hfree : place slot = some .free := (h.at_iff .free slot).mp List.mem_cons_self
  have hat := h.at_eq hfree
  refine ⟨update place slot (some (.owned t)), rest, hlinked, hrest, fun u => ?_, h.live_nodup,
    at_iff_move h.at_iff (fun p j hj => ?_) fun p => ?_,
    unused_move h.unused (h.lt_of_place hfree)⟩
  -- The slots that a thread owns: only `t` gets one more, and it was free before.
  · by_cases hu : u = t
    · subst hu
      have : slot ∉ (s.threads u).owned := fun hm => by cases (hat (.owned u)).mp hm
      simpa [this] using h.owned_nodup u
    · simpa [hu] using h.owned_nodup u
  -- No other slot changes its place.
  · cases p with
    | owned u => by_cases hu : u = t <;> simp [State.At, hu, hj]
    | transit u => by_cases hu : u = t <;> simp [State.At, hu, hpc]
    | live => exact Iff.rfl
    | free => simp [State.At, hj]
  -- The popped slot is at its new place, and nowhere else.
  · cases p with
    | owned u =>
      by_cases hu : u = t
      · simp [State.At, hu]
      · simpa [State.At, hu] using hat (.owned u)
    | transit u =>
      by_cases hu : u = t
      · simp [State.At, hu]
      · simpa [State.At, hu] using hat (.transit u)
    | live => simpa [State.At] using hat .live
    | free => simpa [State.At] using hnot

/-- A push puts the slot in transit on top of the freelist. -/
theorem Partition.push {slot : SlotId} (g : UInt32) (h : Partition s place chain)
    (hpc : (s.threads t).pc.transit = some slot) (hnext : s.nextFree slot = s.head.slot) :
    Partitioned { s.setPc t .idle with head := ⟨g, some slot⟩, version := s.version + 1 } := by
  have hplace : place slot = some (.transit t) := (h.at_iff (.transit t) slot).mp hpc
  have hat := h.at_eq hplace
  have hnot : slot ∉ chain := fun hm => by cases (hat .free).mp hm
  refine ⟨update place slot (some .free), slot :: chain, ?_, List.nodup_cons.mpr ⟨hnot,
    h.chain_nodup⟩, fun u => ?_, h.live_nodup, at_iff_move h.at_iff (fun p j hj => ?_) fun p => ?_,
    unused_move h.unused (h.lt_of_place hplace)⟩
  -- The successor that was stored is still the head, so the chain goes on behind the slot.
  · refine ⟨rfl, ?_⟩
    change Linked s.nextFree (s.nextFree slot) chain
    rw [hnext]
    exact h.linked
  · by_cases hu : u = t
    · subst hu; simpa using h.owned_nodup u
    · simpa [hu] using h.owned_nodup u
  · cases p with
    | owned u => by_cases hu : u = t <;> simp [State.At, hu]
    | transit u => by_cases hu : u = t <;> simp [State.At, hu, hpc, hj.symm]
    | live => exact Iff.rfl
    | free => simp [State.At, hj]
  · cases p with
    | owned u => by_cases hu : u = t <;> simpa [State.At, hu] using hat (.owned u)
    | transit u =>
      by_cases hu : u = t
      · simp [State.At, hu]
      · simpa [State.At, hu] using hat (.transit u)
    | live => exact iff_of_false (fun hm => by cases (hat .live).mp hm) (by simp)
    | free => simp [State.At]

/-- The store grows by a slot that its thread owns. -/
theorem Partition.grow (h : Partition s place chain) (hpc : (s.threads t).pc.transit = none) :
    Partitioned (s.grow t) := by
  -- The new slot has never been anywhere.
  have hnone : place s.slotCount = none := (h.unused _).mpr (Nat.le_refl _)
  have hat : ∀ p, ¬ s.At chain p s.slotCount := fun p hp => by
    rw [h.at_iff, hnone] at hp
    cases hp
  refine ⟨update place s.slotCount (some (.owned t)), chain, h.linked, h.chain_nodup,
    fun u => ?_, h.live_nodup, at_iff_move h.at_iff (fun p j hj => ?_) fun p => ?_, fun j => ?_⟩
  · by_cases hu : u = t
    · subst hu
      have : s.slotCount ∉ (s.threads u).owned := hat (.owned u)
      simpa [State.grow, this] using h.owned_nodup u
    · simpa [State.grow, hu] using h.owned_nodup u
  · cases p with
    | owned u => by_cases hu : u = t <;> simp [State.grow, State.At, hu, hj]
    | transit u => by_cases hu : u = t <;> simp [State.grow, State.At, hu, hpc]
    | live | free => exact Iff.rfl
  · cases p with
    | owned u =>
      by_cases hu : u = t
      · simp [State.grow, State.At, hu]
      · simpa [State.grow, State.At, hu] using hat (.owned u)
    | transit u =>
      by_cases hu : u = t
      · simp [State.grow, State.At, hu]
      · simpa [State.grow, State.At, hu] using hat (.transit u)
    | live => exact iff_of_false (hat .live) (by simp)
    | free => exact iff_of_false (hat .free) (by simp)
  -- The next unused slot is the one after it.
  · by_cases hj : j = s.slotCount
    · subst hj
      simp [State.grow]
    · rw [update_of_ne hj, h.unused]
      exact ⟨fun hle => Nat.lt_of_le_of_ne hle (Ne.symm hj), Nat.le_of_succ_le⟩

/-- An owner starts to push a slot that it has not activated. -/
theorem Partition.reclaim {slot : SlotId} (h : Partition s place chain)
    (hpc : (s.threads t).pc.transit = none) (hslot : slot ∈ (s.threads t).owned) :
    Partitioned (s.reclaim t slot) := by
  have hplace : place slot = some (.owned t) := (h.at_iff (.owned t) slot).mp hslot
  have hat := h.at_eq hplace
  refine ⟨update place slot (some (.transit t)), chain, h.linked, h.chain_nodup, fun u => ?_,
    h.live_nodup, at_iff_move h.at_iff (fun p j hj => ?_) fun p => ?_,
    unused_move h.unused (h.lt_of_place hplace)⟩
  -- No slot is owned twice, so one erasure takes it out.
  · by_cases hu : u = t
    · subst hu; simpa [State.reclaim] using (h.owned_nodup u).erase slot
    · simpa [State.reclaim, hu] using h.owned_nodup u
  · cases p with
    | owned u => by_cases hu : u = t <;> simp [State.reclaim, State.At, hu, hj]
    | transit u => by_cases hu : u = t <;> simp [State.reclaim, State.At, hu, hpc, hj.symm]
    | live | free => exact Iff.rfl
  · cases p with
    | owned u =>
      by_cases hu : u = t
      · subst hu
        simp [State.reclaim, State.At, (h.owned_nodup u).mem_erase_iff]
      · simpa [State.reclaim, State.At, hu] using hat (.owned u)
    | transit u =>
      by_cases hu : u = t
      · simp [State.reclaim, State.At, hu]
      · simpa [State.reclaim, State.At, hu] using hat (.transit u)
    | live => exact iff_of_false (fun hm => by cases (hat .live).mp hm) (by simp)
    | free => exact iff_of_false (fun hm => by cases (hat .free).mp hm) (by simp)

/-- A thread starts to push a live slot whose last handle is gone. -/
theorem Partition.reclaimSlot {slot : SlotId} (h : Partition s place chain)
    (hpc : (s.threads t).pc.transit = none) (hslot : slot ∈ s.live) :
    Partitioned (s.reclaimSlot t slot) := by
  have hplace : place slot = some .live := (h.at_iff .live slot).mp hslot
  have hat := h.at_eq hplace
  refine ⟨update place slot (some (.transit t)), chain, h.linked, h.chain_nodup, fun u => ?_,
    h.live_nodup.erase slot, at_iff_move h.at_iff (fun p j hj => ?_) fun p => ?_,
    unused_move h.unused (h.lt_of_place hplace)⟩
  · by_cases hu : u = t
    · subst hu; simpa [State.reclaimSlot] using h.owned_nodup u
    · simpa [State.reclaimSlot, hu] using h.owned_nodup u
  · cases p with
    | owned u => by_cases hu : u = t <;> simp [State.reclaimSlot, State.At, hu]
    | transit u => by_cases hu : u = t <;> simp [State.reclaimSlot, State.At, hu, hpc, hj.symm]
    | live => simp [State.reclaimSlot, State.At, hj]
    | free => exact Iff.rfl
  · cases p with
    | owned u =>
      by_cases hu : u = t <;> simpa [State.reclaimSlot, State.At, hu] using hat (.owned u)
    | transit u =>
      by_cases hu : u = t
      · simp [State.reclaimSlot, State.At, hu]
      · simpa [State.reclaimSlot, State.At, hu] using hat (.transit u)
    | live => simp [State.reclaimSlot, State.At, h.live_nodup.mem_erase_iff]
    | free => exact iff_of_false (fun hm => by cases (hat .free).mp hm) (by simp)

/-- An owned slot becomes live. -/
theorem Partition.activate {slot : SlotId} (h : Partition s place chain)
    (hslot : slot ∈ (s.threads t).owned) : Partitioned (s.activate t slot) := by
  have hplace : place slot = some (.owned t) := (h.at_iff (.owned t) slot).mp hslot
  have hat := h.at_eq hplace
  have hlive : slot ∉ s.live := fun hm => by cases (hat .live).mp hm
  refine ⟨update place slot (some .live), chain, h.linked, h.chain_nodup, fun u => ?_,
    List.nodup_cons.mpr ⟨hlive, h.live_nodup⟩, at_iff_move h.at_iff (fun p j hj => ?_) fun p => ?_,
    unused_move h.unused (h.lt_of_place hplace)⟩
  · by_cases hu : u = t
    · subst hu; simpa [State.activate] using (h.owned_nodup u).erase slot
    · simpa [State.activate, hu] using h.owned_nodup u
  · cases p with
    | owned u => by_cases hu : u = t <;> simp [State.activate, State.At, hu, hj]
    | transit u => by_cases hu : u = t <;> simp [State.activate, State.At, hu]
    | live => simp [State.activate, State.At, hj]
    | free => exact Iff.rfl
  -- The slot is in no list but that of the live ones, since it was owned before.
  · cases p with
    | owned u =>
      by_cases hu : u = t
      · subst hu
        simp [State.activate, State.At, (h.owned_nodup u).mem_erase_iff]
      · simpa [State.activate, State.At, hu] using hat (.owned u)
    | transit u =>
      by_cases hu : u = t <;> simpa [State.activate, State.At, hu] using hat (.transit u)
    | live => simp [State.activate, State.At]
    | free => exact iff_of_false (fun hm => by cases (hat .free).mp hm) (by simp)

end Preservation

/-! ## Every step keeps the partition -/

section Steps

variable {s s' : State} {a : Action} {t : ThreadId}

theorem Pc.Fresh.of_same {pc : Pc} (h : pc.Fresh s) (hhead : s'.head = s.head)
    (hnext : s'.nextFree = s.nextFree) (hver : s'.version = s.version) : pc.Fresh s' := by
  cases pc <;> simp only [Pc.Fresh, hhead, hnext, hver] at h ⊢ <;> exact h

/-- A change of the head outdates what the other operations have loaded. -/
theorem Pc.Fresh.of_changed {pc : Pc} (h : pc.Fresh s) (hnext : s'.nextFree = s.nextFree)
    (hver : s'.version = s.version + 1) : pc.Fresh s' := by
  cases pc with
  | popNext g slot seen =>
    refine ⟨by rw [hver]; exact Nat.le_succ_of_le h.1, fun hseen => ?_⟩
    have := h.1
    omega
  | popCas g slot next seen =>
    refine ⟨by rw [hver]; exact Nat.le_succ_of_le h.1, fun hseen => ?_⟩
    have := h.1
    omega
  | pushCas slot g current => exact (congrFun hnext slot).trans h
  | idle | grow | pushLoad | pushStore => trivial

/-- A thread moves without touching the head, the successors and the places of slots. -/
theorem Inv.setPc {pc : Pc} (h : Inv s) (hpc : pc.transit = (s.threads t).pc.transit)
    (hfresh : pc.Fresh s) : Inv (s.setPc t pc) := by
  obtain ⟨place, chain, hpart⟩ := h.partitioned
  refine ⟨⟨place, chain, hpart.setPc hpc⟩, fun u => ?_⟩
  by_cases hu : u = t
  · subst hu
    simp only [setPc_threads, update_self]
    exact hfresh.of_same rfl rfl rfl
  · simp only [setPc_threads, update_of_ne hu]
    exact (h.fresh u).of_same rfl rfl rfl

theorem Inv.popLoop (h : Inv s) (hpc : (s.threads t).pc.transit = none) : Inv (s.popLoop t) := by
  unfold State.popLoop
  split
  · exact h.setPc hpc.symm trivial
  · next slot hslot =>
    refine h.setPc hpc.symm ⟨Nat.le_refl _, fun _ => ?_⟩
    rw [← hslot]

theorem Inv.popCas {g : UInt32} {slot : SlotId} {next : Option SlotId} {seen : ℕ} {spurious : Bool}
    (h : Inv s) (hpc : (s.threads t).pc = .popCas g slot next seen)
    (hunchanged : spurious = false → s.head = ⟨g, some slot⟩ → seen = s.version) :
    Inv (s.popCas t g slot next spurious) := by
  have htransit : (s.threads t).pc.transit = none := by rw [hpc]; rfl
  unfold State.popCas
  split
  · next hcas =>
    have hfresh := h.fresh t
    rw [hpc] at hfresh
    obtain ⟨_, hnext⟩ := hfresh.2 (hunchanged hcas.2 hcas.1)
    subst hnext
    obtain ⟨place, chain, hpart⟩ := h.partitioned
    refine ⟨hpart.pop (by rw [hcas.1]) htransit, fun u => ?_⟩
    by_cases hu : u = t
    · simp [hu, Pc.Fresh]
    · simp only [setThread_threads, update_of_ne hu]
      exact (h.fresh u).of_changed rfl rfl
  · exact h.popLoop htransit

theorem Inv.pushCas {g : UInt32} {slot : SlotId} {current : Head} {spurious : Bool}
    (h : Inv s) (hpc : (s.threads t).pc = .pushCas slot g current) :
    Inv (s.pushCas t slot g current spurious) := by
  unfold State.pushCas
  split
  · next hcas =>
    have hfresh := h.fresh t
    rw [hpc] at hfresh
    obtain ⟨place, chain, hpart⟩ := h.partitioned
    refine ⟨hpart.push g (by rw [hpc]; rfl) (by rw [hcas.1]; exact hfresh), fun u => ?_⟩
    by_cases hu : u = t
    · simp [hu, Pc.Fresh]
    · simp only [setPc_threads, update_of_ne hu]
      exact (h.fresh u).of_changed rfl rfl
  · exact h.setPc (by rw [hpc]; rfl) trivial

theorem Inv.pushStore {g : UInt32} {slot : SlotId} {current : Head}
    (h : Inv s) (hpc : (s.threads t).pc = .pushStore slot g current) :
    Inv { s.setPc t (.pushCas slot g current) with
      nextFree := update s.nextFree slot current.slot } := by
  have htransit : (s.threads t).pc.transit = some slot := by rw [hpc]; rfl
  obtain ⟨place, chain, hpart⟩ := h.partitioned
  have hplace : place slot = some (.transit t) := (hpart.at_iff (.transit t) slot).mp htransit
  have hat := hpart.at_eq hplace
  have hmoved : Partition (s.setPc t (.pushCas slot g current)) place chain :=
    hpart.setPc htransit.symm
  refine ⟨⟨place, chain, hmoved.setNextFree _ (t := t) (by simp; rfl)⟩, fun u => ?_⟩
  by_cases hu : u = t
  · simp [hu, Pc.Fresh]
  · simp only [setPc_threads, update_of_ne hu]
    have hfresh := h.fresh u
    -- The slot is in transit here: it is neither at the top of the list nor in another push.
    cases hpc' : (s.threads u).pc with
    | popNext g' slot' seen =>
      rw [hpc'] at hfresh
      exact hfresh
    | popCas g' slot' next seen =>
      rw [hpc'] at hfresh
      refine ⟨hfresh.1, fun hseen => ?_⟩
      obtain ⟨hhead, hnext⟩ := hfresh.2 hseen
      have hchain : slot' ∈ chain := by
        have hlinked := hpart.linked
        rw [hhead, Linked.some_iff] at hlinked
        obtain ⟨rest, rfl, _⟩ := hlinked
        exact List.mem_cons_self
      have hne : slot' ≠ slot := by
        rintro rfl
        cases (hat .free).mp hchain
      exact ⟨hhead, (update_of_ne hne _ _).trans hnext⟩
    | pushCas slot' g' current' =>
      rw [hpc'] at hfresh
      have hne : slot' ≠ slot := by
        rintro rfl
        have := (hat (.transit u)).mp (by simp only [State.At, hpc']; rfl)
        exact hu (by simpa using this)
      exact (update_of_ne hne _ _).trans hfresh
    | idle | grow | pushLoad | pushStore => trivial

/-- A step that finds the head unchanged keeps the partition. -/
theorem step_inv (h : Inv s) (hG : HeadUnchanged s a) (hs : step s a = some s') : Inv s' := by
  obtain ⟨t, act⟩ := a
  -- Slots that change hands outside of the list leave the head and the successors alone.
  have moved {s' : State} (hpart : ∀ place chain, Partition s place chain → Partitioned s')
      (hth : ∀ u, u ≠ t → s'.threads u = s.threads u) (hhead : s'.head = s.head)
      (hnext : s'.nextFree = s.nextFree) (hver : s'.version = s.version)
      (ht : (s'.threads t).pc.Fresh s') : Inv s' := by
    obtain ⟨place, chain, hp⟩ := h.partitioned
    refine ⟨hpart place chain hp, fun u => ?_⟩
    by_cases hu : u = t
    · exact hu ▸ ht
    · rw [hth u hu]
      exact (h.fresh u).of_same hhead hnext hver
  unfold step at hs
  dsimp only at hs
  split at hs
  case h_1 hpc => cases hs; exact h.popLoop (by rw [hpc]; rfl)
  case h_2 slot hpc =>
    split at hs
    · next hslot =>
      cases hs
      refine moved (fun _ _ hp => hp.reclaim (by rw [hpc]; rfl) hslot) (fun u hu => ?_)
        rfl rfl rfl ?_
      · simp [State.reclaim, hu]
      · simp [State.reclaim, Pc.Fresh]
    · cases hs
  case h_3 slot hpc =>
    split at hs
    · next hslot =>
      cases hs
      refine moved (fun _ _ hp => hp.reclaimSlot (by rw [hpc]; rfl) hslot) (fun u hu => ?_)
        rfl rfl rfl ?_
      · simp [State.reclaimSlot, hu]
      · simp [State.reclaimSlot, Pc.Fresh]
    · cases hs
  case h_4 slot hpc =>
    split at hs
    · next hslot =>
      cases hs
      refine moved (fun _ _ hp => hp.activate hslot) (fun u hu => ?_) rfl rfl rfl ?_
      · simp [State.activate, hu]
      · simp [State.activate, hpc, Pc.Fresh]
    · cases hs
  case h_5 g slot seen hpc =>
    cases hs
    have hfresh := h.fresh t
    rw [hpc] at hfresh
    exact h.setPc (by rw [hpc]; rfl) ⟨hfresh.1, fun hseen => ⟨hfresh.2 hseen, rfl⟩⟩
  case h_6 spurious g slot next seen hpc =>
    cases hs
    refine h.popCas hpc fun hspurious hhead => ?_
    subst hspurious
    simp only [HeadUnchanged, hpc] at hG
    exact hG hhead
  case h_7 hpc =>
    split at hs
    · cases hs
      refine moved (fun _ _ hp => hp.grow (by rw [hpc]; rfl)) (fun u hu => ?_) rfl rfl rfl ?_
      · simp [State.grow, hu]
      · simp [State.grow, Pc.Fresh]
    · cases hs
  case h_8 slot g hpc => cases hs; exact h.setPc (by rw [hpc]; rfl) trivial
  case h_9 slot g current hpc => cases hs; exact h.pushStore hpc
  case h_10 spurious slot g current hpc => cases hs; exact h.pushCas hpc
  case h_11 => cases hs

theorem init_inv : Inv initial := by
  refine ⟨⟨fun _ => none, [], trivial, List.nodup_nil, fun _ => List.nodup_nil, List.nodup_nil,
    fun p i => ?_, fun i => ?_⟩, fun _ => trivial⟩
  · cases p <;> simp [State.At, initial]
  · simp [initial]

/-- Runs whose pops find the head unchanged keep the partition. -/
theorem reachableBy_inv (h : machine.ReachableBy HeadUnchanged s) : Inv s :=
  h.invariant (fun _ hs => hs ▸ init_inv) fun _ _ _ => step_inv

end Steps

/-- **One owner per slot.** In every state of a run whose pops swap only a head that has not
    changed since they loaded it, every slot is in one place, and a pop that succeeds installs
    the current successor of its slot. -/
theorem partitioned_of_head_unchanged {s : State} (h : machine.ReachableBy HeadUnchanged s) :
    Partitioned s ∧ ∀ a, HeadUnchanged s a → InstallsSuccessor s a := by
  have hinv := reachableBy_inv h
  refine ⟨hinv.partitioned, fun a hG => ?_⟩
  unfold InstallsSuccessor
  split
  · next g slot next seen hact hpc =>
    intro hhead
    have hfresh := hinv.fresh a.thread
    simp only [HeadUnchanged, hact, hpc] at hG
    rw [hpc] at hfresh
    exact (hfresh.2 (hG hhead)).2.symm
  · trivial

/-- The operations of one thread that allocates a slot from an empty list. -/
def growActions (t : ThreadId) : List Action :=
  [⟨t, .allocate⟩, ⟨t, .advance false⟩]

/-- An undisturbed pop of thread `t`. -/
def popActions (t : ThreadId) : List Action :=
  [⟨t, .allocate⟩, ⟨t, .advance false⟩, ⟨t, .advance false⟩]

/-- Thread `t` activates its slot, and later the last handle is gone: an undisturbed push. -/
def recycleActions (t : ThreadId) (slot : SlotId) : List Action :=
  [⟨t, .activate slot⟩, ⟨t, .reclaimSlot slot⟩, ⟨t, .advance false⟩, ⟨t, .advance false⟩,
    ⟨t, .advance false⟩]

/-- Two threads allocate from a list of two slots, one after the other. -/
def orderlyActions : List Action :=
  growActions 1 ++ growActions 1 ++ recycleActions 1 1 ++ recycleActions 1 0 ++ popActions 1 ++
    popActions 2

theorem partitioned_orderly : ∃ s, machine.run initial orderlyActions = some s ∧
    (s.threads 1).owned = [0] ∧ (s.threads 2).owned = [1] ∧ Partitioned s := by
  have hrun : ∃ s, machine.run initial orderlyActions = some s ∧ (s.threads 1).owned = [0] ∧
      (s.threads 2).owned = [1] := ⟨_, rfl, rfl, rfl⟩
  have hguard : machine.Along HeadUnchanged initial orderlyActions := by decide
  obtain ⟨s, hrun, h₁, h₂⟩ := hrun
  exact ⟨s, hrun, h₁, h₂,
    (partitioned_of_head_unchanged ((Machine.ReachableBy.init rfl).run hguard hrun)).1⟩

/-- The list is 2, 0, 1. Thread 1 pops 2 and leaves the word `(0, 0)`. Thread 2 loads it, and
    the successor 1. Thread 3 pops 0 and 1 and recycles 0; thread 1 recycles 2 and pops it,
    which leaves the word `(0, 0)` again. Thread 2 swaps it for the slot 1 of thread 3. -/
def abaActions : List Action :=
  growActions 1 ++ growActions 1 ++ growActions 1 ++ recycleActions 1 1 ++ recycleActions 1 0 ++
    recycleActions 1 2 ++ popActions 1 ++ [⟨2, .allocate⟩, ⟨2, .advance false⟩] ++
    popActions 3 ++ popActions 3 ++ recycleActions 3 0 ++ recycleActions 1 2 ++ popActions 1 ++
    [⟨2, .advance false⟩]

/-- A slot can be on the freelist while a thread owns it. -/
theorem aba_breaks_partition : ∃ s, machine.run initial abaActions = some s ∧
    machine.Reachable s ∧ ¬ Partitioned s := by
  have hrun : ∃ s, machine.run initial abaActions = some s ∧ s.head.slot = some 1 ∧
      1 ∈ (s.threads 3).owned := ⟨_, rfl, rfl, by decide⟩
  obtain ⟨s, hrun, hhead, howned⟩ := hrun
  refine ⟨s, hrun, (Machine.Reachable.init rfl).run hrun, ?_⟩
  rintro ⟨place, chain, h⟩
  have hlinked := h.linked
  rw [hhead, Linked.some_iff] at hlinked
  obtain ⟨rest, rfl, _⟩ := hlinked
  have hplace : place 1 = some (.owned 3) := (h.at_iff (.owned 3) 1).mp howned
  cases (h.at_eq hplace .free).mp List.mem_cons_self

end Ctorium.Freelist
