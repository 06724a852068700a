import Ctorium.Prototype.Deletion
import Ctorium.Prototype.Stored

/-!
# The store that the registry leaves

`Prototype` counts the handles of a registry that is alive, in the store of `Capacity`; `Deletion`
begins when the registry is destroyed. Here the one takes over the store of the other, and a thread
that nobody disturbs drops the handles that are left.

* `Alone.drop`: a handle is dropped by `releaseAcquire` on the store in chunks and, if it was the
  last one of its bean, `reclaimSlot`.
* `deleted_of_careful`: after operations that were all careful, the store is deleted when one
  thread has dropped all handles.
-/

namespace Ctorium.Deletion

open Function
open Capacity (Calls Represents)
open Prototype (View)

/-! ## The runs of one thread -/

section Run

variable {s t : State} {p : Party} {i : SlotId}

/-- A party that is alone deletes the store alone. -/
theorem leads_of_run {as : List Action} (hidle : ∀ q, q ≠ p → s.pcs q = .idle)
    (has : ∀ a ∈ as, a.party = p) (hr : machine.run s as = some t) :
    machine.Leads DeletesAlone s t := by
  induction as generalizing s with
  | nil => exact Option.some.inj hr ▸ .refl s
  | cons a as ih =>
    obtain ⟨u, hs, hr⟩ := Option.bind_eq_some_iff.mp hr
    have hparty := has a List.mem_cons_self
    have halone : DeletesAlone s a := by
      cases a with
      | release k j => trivial
      | advance q swapped =>
        obtain rfl : q = p := hparty
        exact fun _ q' hq' => by rw [hidle q' hq']; rfl
    have hrest : ∀ q, q ≠ p → u.pcs q = .idle := fun q hq =>
      (step_pcs_of_ne hs (hparty.symm ▸ hq)).trans (hidle q hq)
    exact (Machine.Leads.single halone hs).trans
      (ih hrest (fun b hb => has b (List.mem_cons_of_mem _ hb)) hr)

/-- A release that is not the last one. -/
theorem run_release {k : ℕ} (hdeletes : s.deletes = 0) (hpc : s.pcs (.thread k) = .idle)
    (hpos : 1 < s.refcount i) : machine.run s [.release k i] = some { s with
      refcount := update s.refcount i (s.refcount i - 1)
      pcs := update s.pcs (.thread k) .idle } := by
  have hne : s.refcount i ≠ 1 := hpos.ne'
  simp [machine, step, hpc, hne, hdeletes, State.release, State.goto, State.access,
    Nat.zero_lt_of_lt hpos]

/-- The last release of a slot gives it back. -/
theorem run_lastRelease {k : ℕ} (hdeletes : s.deletes = 0) (hdead : s.alive = false)
    (hpc : s.pcs (.thread k) = .idle) (hlast : s.refcount i = 1) (hlive : s.liveSlotCount ≠ 1) :
    machine.run s (.release k i :: List.replicate 6 (.advance (.thread k) true)) = some { s with
      refcount := update s.refcount i 0
      liveSlotCount := s.liveSlotCount - 1
      unreleased := s.unreleased.erase i
      pcs := update s.pcs (.thread k) .idle } := by
  simp [machine, step, hpc, hlast, hlive, hdeletes, hdead, State.release, State.releaseLiveSlot,
    State.goto, State.access, List.replicate_succ]

/-- The last release of the last live slot goes on with `tryDeleteIfUnused`. -/
theorem run_delete {k : ℕ} (hdeletes : s.deletes = 0) (hdead : s.alive = false)
    (hclaimed : s.deleteClaimed = false) (hpc : s.pcs (.thread k) = .idle)
    (hlast : s.refcount i = 1) (hlive : s.liveSlotCount = 1) :
    machine.run s (.release k i :: List.replicate 10 (.advance (.thread k) true)) = some { s with
      refcount := update s.refcount i 0
      liveSlotCount := 0
      unreleased := s.unreleased.erase i
      deleteClaimed := true
      deletes := 1
      pcs := update s.pcs (.thread k) .idle } := by
  simp [machine, step, hpc, hlast, hlive, hdeletes, hdead, hclaimed, State.release,
    State.releaseLiveSlot, State.claim, State.deleteThis, State.goto, State.access,
    List.replicate_succ]

end Run

/-! ## Dropping handles -/

/-- The registry is dead and nothing is under way: the counters are those of the live slots, each
    of which has handles. -/
structure Alone (d : State) (c : Capacity.State) : Prop where
  refcount : ∀ i ∈ c.live, d.refcount i = c.store.refcountAt i
  pos : ∀ i, 0 < d.refcount i ↔ i ∈ c.live
  lt : ∀ i, d.refcount i < 2 ^ 32
  liveSlotCount : d.liveSlotCount = c.live.length
  idle : ∀ p, d.pcs p = .idle
  dead : d.alive = false
  claimed : d.deleteClaimed = false
  deletes : d.deletes = 0

variable {addr : Prototype.ObjectId → Addr} {c : Capacity.State} {v : View} {d : State}
  {i : SlotId}

/-- The view after a handle has been dropped. -/
def dropped (v : View) (i : SlotId) : View :=
  if (v.slots i).refcount = 1 then (v.count i (2 ^ 32 - 1)).push i else v.count i (2 ^ 32 - 1)

/-- Only the counter of the slot goes down. -/
theorem dropped_refcount (hpos : 0 < (v.slots i).refcount) (hlt : (v.slots i).refcount < 2 ^ 32)
    (j : SlotId) : ((dropped v i).slots j).refcount =
      update (fun j => (v.slots j).refcount) i ((v.slots i).refcount - 1) j := by
  have hcount : ((v.count i (2 ^ 32 - 1)).slots j).refcount =
      update (fun j => (v.slots j).refcount) i ((v.slots i).refcount - 1) j := by
    rw [View.count, View.setSlot_slots, update_apply, update_apply]
    split_ifs
    · dsimp only
      omega
    · rfl
  unfold dropped
  split_ifs
  · rw [← hcount]
    change (((v.count i (2 ^ 32 - 1)).clear i).slots j).refcount = _
    rw [View.clear_slots, update_apply]
    split_ifs with hj
    · rw [hj]
    · rfl
  · exact hcount

/-- What is left is a store with its handles again. -/
theorem Alone.next (h : Alone d c) (hrep : Represents addr c v) (hi : i ∈ c.live)
    {c' : Capacity.State} {d' : State} (hrep' : Represents addr c' (dropped v i))
    (hlive : ∀ j, j ∈ c'.live ↔ j ∈ c.live ∧ (j = i → d.refcount i ≠ 1))
    (hrefcount : d'.refcount = update d.refcount i (d.refcount i - 1))
    (hcount : d'.liveSlotCount = c'.live.length) (hidle : ∀ p, d'.pcs p = .idle)
    (hdead : d'.alive = false) (hclaimed : d'.deleteClaimed = false)
    (hdeletes : d'.deletes = 0) : Alone d' c' := by
  have hsame : ∀ j ∈ c.live, d.refcount j = (v.slots j).refcount := fun j hj =>
    (h.refcount j hj).trans (hrep.slots.refcount j)
  have hpos := (h.pos i).mpr hi
  refine ⟨fun j hj => ?_, fun j => ?_, fun j => ?_, hcount, hidle, hdead, hclaimed, hdeletes⟩
  · have hlt := h.lt i
    rw [hsame i hi] at hpos hlt
    rw [hrefcount, hrep'.slots.refcount, dropped_refcount hpos hlt, hsame i hi, update_apply,
      update_apply, hsame j ((hlive j).mp hj).1]
  · rw [hrefcount, hlive, update_apply, ← h.pos j]
    split_ifs with hj
    · subst hj
      simp only [hpos, true_and, forall_const]
      omega
    · simp [hj]
  · rw [hrefcount, update_apply]
    split_ifs
    · exact (Nat.sub_le ..).trans_lt (h.lt i)
    · exact h.lt j

/-- A thread drops a handle, with the calls on the store in chunks: either it deletes the store with
    the last live slot, or others are left. -/
theorem Alone.drop (h : Alone d c) (hrep : Represents addr c v) (hi : i ∈ c.live) (k : ℕ) :
    ∃ c' d', Calls c c' ∧ Represents addr c' (dropped v i) ∧ machine.Leads DeletesAlone d d' ∧
      d'.refcount = update d.refcount i (d.refcount i - 1) ∧
      (c'.live = [] ∧ d'.deletes = 1 ∨ c'.live ≠ [] ∧ Alone d' c') := by
  have hlt : i < v.slotCount := hrep.lt_of_held (List.mem_append_right _ hi)
  have hpos : 0 < d.refcount i := (h.pos i).mpr hi
  have hcount : d.refcount i = (v.slots i).refcount :=
    (h.refcount i hi).trans (hrep.slots.refcount i)
  obtain ⟨c₁, hcalls, hrep₁, hbuilding, hlive⟩ := hrep.count hlt (.inr rfl)
  have hidle : ∀ q, q ≠ Party.thread k → d.pcs q = .idle := fun q _ => h.idle q
  have hupdate : ∀ q, update d.pcs (.thread k) .idle q = .idle := fun q => by
    rw [update_apply, h.idle, ite_self]
  by_cases hlast : (v.slots i).refcount = 1
  · -- The slot is given back, and the store is deleted with it unless another one is live.
    have hlast' : d.refcount i = 1 := hcount.trans hlast
    obtain ⟨c', hcalls', hrep', -, hlive'⟩ := hrep₁.reclaimSlot (hlive.symm ▸ hi)
    rw [hlive] at hlive'
    have hdropped : Represents addr c' (dropped v i) := by
      rw [dropped, if_pos hlast]
      exact hrep'
    have hlength : c'.live.length = c.live.length - 1 := by
      rw [hlive', List.length_erase_of_mem hi]
    have hrefcount : update d.refcount i 0 = update d.refcount i (d.refcount i - 1) := by
      rw [hlast']
    by_cases hone : d.liveSlotCount = 1
    · have hrun := run_delete h.deletes h.dead h.claimed (h.idle (.thread k)) hlast' hone
      have hleads := leads_of_run hidle (by simp [Action.party]) hrun
      refine ⟨c', _, hcalls.trans hcalls', hdropped, hleads, hrefcount, .inl ⟨?_, rfl⟩⟩
      exact List.eq_nil_of_length_eq_zero (by rw [hlength, ← h.liveSlotCount, hone])
    · have hrun := run_lastRelease h.deletes h.dead (h.idle (.thread k)) hlast' hone
      have hleads := leads_of_run hidle (by simp [Action.party]) hrun
      refine ⟨c', _, hcalls.trans hcalls', hdropped, hleads, hrefcount, .inr ⟨fun hnil => ?_, ?_⟩⟩
      · rw [hnil, List.length_nil] at hlength
        have hlen := h.liveSlotCount
        have hpos := List.length_pos_of_mem hi
        omega
      refine h.next hrep hi hdropped (fun j => ?_) hrefcount ?_ hupdate h.dead h.claimed h.deletes
      · rw [hlive', hrep.inv.live_nodup.mem_erase_iff, and_comm]
        simp [hlast']
      · rw [hlength, ← h.liveSlotCount]
  · have hone : 1 < d.refcount i := by
      have hne : d.refcount i ≠ 1 := fun he => hlast (hcount.symm.trans he)
      omega
    have hdropped : Represents addr c₁ (dropped v i) := by
      rw [dropped, if_neg hlast]
      exact hrep₁
    have hrun := run_release h.deletes (h.idle (.thread k)) hone
    have hleads := leads_of_run hidle (by simp [Action.party]) hrun
    have hne : c.live ≠ [] := List.ne_nil_of_mem hi
    refine ⟨c₁, _, hcalls, hdropped, hleads, rfl, .inr ⟨hlive.symm ▸ hne, ?_⟩⟩
    refine h.next hrep hi hdropped (fun j => ?_) rfl ?_ hupdate h.dead h.claimed h.deletes
    · rw [hlive]
      exact (and_iff_left fun _ => hone.ne').symm
    · rw [hlive]
      exact h.liveSlotCount

/-- A thread drops all handles, in whatever order, and deletes the store with the last one. -/
theorem Alone.drops (h : Alone d c) (hrep : Represents addr c v) (hlive : c.live ≠ []) (k : ℕ)
    {l : List SlotId} (hl : ∀ i, l.count i = d.refcount i) :
    ∃ c' d', Calls c c' ∧ c'.live = [] ∧ machine.Leads DeletesAlone d d' ∧ d'.deletes = 1 := by
  induction l generalizing c d v with
  | nil =>
    obtain ⟨i, hi⟩ := List.exists_mem_of_ne_nil _ hlive
    exact absurd (hl i) ((h.pos i).mpr hi).ne
  | cons i l ih =>
    have hpos : 0 < d.refcount i := by
      rw [← hl i, List.count_cons_self]
      exact Nat.succ_pos _
    obtain ⟨c₁, d₁, hcalls, hrep₁, hleads, hrefcount, ⟨hnil, hdeletes⟩ | ⟨hne, halone⟩⟩ :=
      h.drop hrep ((h.pos i).mp hpos) k
    · exact ⟨c₁, d₁, hcalls, hnil, hleads, hdeletes⟩
    · have hrest : ∀ j, l.count j = d₁.refcount j := by
        intro j
        rw [hrefcount, update_apply, ← hl i, ← hl j]
        split_ifs with hj
        · rw [hj, List.count_cons_self, Nat.add_sub_cancel]
        · rw [List.count_cons_of_ne (Ne.symm hj)]
      obtain ⟨c', d', hcalls', hnil, hleads', hdeletes⟩ := ih halone hrep₁ hne hrest
      exact ⟨c', d', hcalls.trans hcalls', hnil, hleads.trans hleads', hdeletes⟩

/-! ## The end of the registry -/

/-- The state in which the registry leaves the store. -/
def handover (c : Capacity.State) : State :=
  initial (fun i => if i ∈ c.live then c.store.refcountAt i else 0) c.live.toFinset

/-- The registry dies, and deletes the store if no slot is live. -/
theorem leads_markDead (hrep : Represents addr c v) (hpos : ∀ i ∈ c.live, 0 < c.store.refcountAt i)
    (hlt : ∀ i ∈ c.live, c.store.refcountAt i < 2 ^ 32) :
    ∃ d, machine.Leads DeletesAlone (handover c) d ∧ d.refcount = (handover c).refcount ∧
      (c.live = [] ∧ d.deletes = 1 ∨ c.live ≠ [] ∧ Alone d c) := by
  have hidle : ∀ q, q ≠ .registry → (handover c).pcs q = .idle := fun q hq => if_neg hq
  have hcard : c.live.toFinset.card = c.live.length :=
    List.toFinset_card_of_nodup hrep.inv.live_nodup
  by_cases hnil : c.live = []
  · obtain ⟨d, hrun, hrefcount, hdeletes⟩ : ∃ d,
        machine.run (handover c) (List.replicate 5 (.advance .registry true)) = some d ∧
          d.refcount = (handover c).refcount ∧ d.deletes = 1 := by
      simp [machine, step, handover, initial, hnil, State.markDead, State.claim, State.deleteThis,
        State.goto, State.access, List.replicate_succ]
    exact ⟨d, leads_of_run hidle (by simp [Action.party]) hrun, hrefcount, .inl ⟨hnil, hdeletes⟩⟩
  · have hne : c.live.toFinset.card ≠ 0 := by
      rw [hcard]
      exact fun he => hnil (List.eq_nil_of_length_eq_zero he)
    have hrun : machine.run (handover c) (List.replicate 2 (.advance .registry true)) =
        some { handover c with alive := false, pcs := fun _ => .idle } := by
      have hpcs : update (handover c).pcs .registry .idle = fun _ => .idle := by
        funext q
        rw [update_apply]
        split_ifs with hq
        · rfl
        · exact hidle q hq
      rw [← hpcs]
      simp [machine, step, handover, initial, hnil, State.markDead, State.goto, State.access,
        List.replicate_succ]
    refine ⟨_, leads_of_run hidle (by simp [Action.party]) hrun, rfl, .inr ⟨hnil, ?_⟩⟩
    refine ⟨fun i hi => if_pos hi, fun i => ?_, fun i => ?_, hcard, fun _ => rfl, rfl, rfl, rfl⟩
    · change 0 < (if i ∈ c.live then _ else _) ↔ _
      split_ifs with hi
      · exact iff_of_true (hpos i hi) hi
      · exact iff_of_false (Nat.lt_irrefl 0) hi
    · change (if i ∈ c.live then _ else _) < _
      split_ifs with hi
      · exact hlt i hi
      · exact Nat.two_pow_pos 32

end Ctorium.Deletion

namespace Ctorium.Prototype

open Capacity (Calls)
open Deletion (DeletesAlone handover)

variable {addr : ObjectId → Addr} {s : State} {c : Capacity.State}

/-- A live slot counts the handles of its bean. -/
theorem Stored.refcountAt (h : Stored addr c s []) (hinv : Inv none none s []) {i : SlotId}
    (hi : i ∈ c.live) : c.store.refcountAt i = (s.handles none i).card ∧
      0 < c.store.refcountAt i ∧ c.store.refcountAt i < 2 ^ 32 := by
  obtain ⟨o, hmem, hactive⟩ := ((h.live i).mp hi).resolve_right List.not_mem_nil
  have hrefcount : c.store.refcountAt i = (s.slots i).refcount := h.represents.slots.refcount i
  rw [hrefcount]
  exact ⟨hinv.counts.refcount i o hmem hactive, hinv.counts.pos i o hmem hactive,
    hinv.counts.lt i o hmem hactive⟩

/-- A slot that is not live has no handles. -/
theorem Stored.handles_eq_empty (h : Stored addr c s []) (hinv : Inv none none s []) {i : SlotId}
    (hi : i ∉ c.live) : s.handles none i = ∅ := by
  refine Finset.eq_empty_of_forall_notMem fun a ha => hi ?_
  obtain ⟨-, -, halive, hproto, rfl⟩ := mem_handles.mp ha
  obtain ⟨o, -, hmem, hactive⟩ := hinv.tracked halive hproto
  exact (h.live _).mpr (.inl ⟨o, hmem, hactive⟩)

/-- After careful operations the registry leaves a store whose counters count the handles. -/
theorem Stored.init_handover (h : Stored addr c s []) (hinv : Inv none none s []) :
    Deletion.machine.Init (handover c) ∧
      ∀ i, (handover c).refcount i = (s.handles none i).card := by
  refine ⟨⟨_, _, fun i => ?_, rfl⟩, fun i => ?_⟩
  · rw [List.mem_toFinset]
    split_ifs with hi
    · exact iff_of_true (h.refcountAt hinv hi).2.1 hi
    · exact iff_of_false (Nat.lt_irrefl 0) hi
  · change (if i ∈ c.live then _ else _) = _
    split_ifs with hi
    · exact (h.refcountAt hinv hi).1
    · rw [h.handles_eq_empty hinv hi, Finset.card_empty]

/-- After careful operations the registry dies, and a thread drops all handles that there are, in
    whatever order. The calls on the store in chunks leave no slot live, and it is deleted. -/
theorem deleted_of_careful (addr : ObjectId → Addr) (hs : machine.ReachableBy Careful s) (k : ℕ)
    {l : List SlotId} (hl : ∀ i, l.count i = (s.handles none i).card) :
    ∃ c c' d, (Capacity.machine none).ReachableBy (fun c call => c.Safe none call) c ∧
      Stored addr c s [] ∧ Calls c c' ∧ c'.live = [] ∧ Deletion.machine.Init (handover c) ∧
        Deletion.machine.Leads DeletesAlone (handover c) d ∧ d.deletes = 1 := by
  obtain ⟨c, hc, hinv, hstored⟩ := stored_of_careful addr hs
  obtain ⟨hinit, hrefcount⟩ := hstored.init_handover hinv
  obtain ⟨d, hdead, hsame, ⟨hnil, hdeletes⟩ | ⟨hne, halone⟩⟩ :=
    Deletion.leads_markDead hstored.represents (fun i hi => (hstored.refcountAt hinv hi).2.1)
      fun i hi => (hstored.refcountAt hinv hi).2.2
  · exact ⟨c, c, d, hc, hstored, .refl c, hnil, hinit, hdead, hdeletes⟩
  · have hcount : ∀ i, l.count i = d.refcount i := fun i => by rw [hl, hsame, hrefcount]
    obtain ⟨c', d', hcalls, hnil, hleads, hdeletes⟩ :=
      halone.drops hstored.represents hne k hcount
    exact ⟨c, c', d', hc, hstored, hcalls, hnil, hinit, hdead.trans hleads, hdeletes⟩

end Ctorium.Prototype
