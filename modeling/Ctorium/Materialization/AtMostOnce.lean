import Ctorium.Materialization.Invariant

/-!
# Materialization happens at most once

In every interleaving, a key has at most one materialization in flight and at
most one stored instance, and every resolve that returns gives that instance
(`at_most_once`). A construction that throws leaves no trace but its exception:
its key can be claimed again (`reclaim`).
-/

namespace Ctorium.Materialization

open Function

section Reclaim

variable {D : Descriptors} {s : State} {t : ThreadToken} {k : MaterializationKey}

/-- A thread in user code that is not materializing the descriptor can claim the key. -/
def Claimable (D : Descriptors) (s : State) (k : MaterializationKey) : Prop :=
  ∀ t, t ≠ kNoMaterializationThreadToken → userCode (s.threads t).frames = true →
    k.descId ∉ (s.threads t).materializationStack →
    ∃ s', (machine D).run s (claimActions t k) = some s' ∧
      (⟨k, t⟩ : MaterializingEntry) ∈ s'.materializing

theorem resolve_of_valid (hv : D.Valid k) : resolve D s t k.descId k.scope =
    s.setFrames t
      (⟨.materialize k .find, (s.threads t).materializationStack⟩ :: (s.threads t).frames) := by
  obtain ⟨hprim, hlife, hstate⟩ := hv
  obtain ⟨d, _ | sc⟩ := k
  · simp only at hprim hlife
    simp [resolve, hlife, hprim]
  · simp only at hprim hlife
    simp [resolve, hlife, hprim, hstate sc rfl]

theorem findFast_of_constructible (hc : D.Constructible k) (hfind : s.findInstance D k = none)
    (e : List DescriptorId) (rest : List Frame) :
    findFast D s t k e rest = s.setFrames t (⟨.materialize k .ensureSlot, e⟩ :: rest) := by
  obtain ⟨d, _ | sc⟩ := k
  · simp [findFast, hfind]
  · obtain ⟨hstop, horigin⟩ := hc sc rfl
    simp only at horigin
    simp [findFast, hfind, hstop, horigin]

theorem claimMaterializationOrWait_of_free (hfind : s.findInstance D k = none)
    (hown : s.ownerOf k = none) (hd : k.descId ∉ (s.threads t).materializationStack)
    (e : List DescriptorId) (rest : List Frame) :
    (⟨k, t⟩ : MaterializingEntry) ∈
      (claimMaterializationOrWait D s t k e rest).materializing := by
  have hdec : claimDecision D (s.setWait t {}) t k = .claimed := by
    have hown' : (s.setWait t {}).ownerOf k = none := hown
    simp [claimDecision, hfind, hown', hd]
  simp [claimMaterializationOrWait, claimIteration, hd, hdec]

/-- A key that is neither stored nor owned can be claimed. -/
theorem reclaim (hv : D.Valid k) (hc : D.Constructible k) (hfind : s.findInstance D k = none)
    (hown : s.ownerOf k = none) : Claimable D s k := by
  -- The four steps of the call up to the claim, one by one.
  intro t ht hu hd
  set e := (s.threads t).materializationStack
  set rest := (s.threads t).frames
  let s₁ := s.setFrames t (⟨.materialize k .find, e⟩ :: rest)
  let s₂ := s₁.setFrames t (⟨.materialize k .ensureSlot, e⟩ :: rest)
  let s₃ := (s₂.ensureMaterializationWaitSlot t).setFrames t (⟨.materialize k .claim, e⟩ :: rest)
  let s₄ := claimMaterializationOrWait D s₃ t k e rest
  have h₁ : step D s ⟨t, .resolve k.descId k.scope⟩ = some s₁ := by
    simp only [step]
    rw [if_pos ⟨ht, hu⟩, resolve_of_valid hv]
  have h₂ : step D s₁ ⟨t, .find⟩ = some s₂ := by
    have := findFast_of_constructible (s := s₁) (t := t) hc hfind e rest
    simp only [step, s₁, State.setFrames_threads, update_self]
    exact congrArg some this
  have h₃ : step D s₂ ⟨t, .ensureSlot⟩ = some s₃ := by
    simp only [step, s₂, State.setFrames_threads, update_self]
    rfl
  have h₄ : step D s₃ ⟨t, .claim⟩ = some s₄ := by
    simp only [step, s₃, State.setFrames_threads, update_self]
    rfl
  refine ⟨s₄, by simp [claimActions, machine, h₁, h₂, h₃, h₄], ?_⟩
  -- The wait slot changes nothing that the claim looks at.
  have hslot := s₂.ensureMaterializationWaitSlot_eq t
  refine claimMaterializationOrWait_of_free ?_ ?_ ?_ e rest
  · simp only [s₃, State.findInstance_setFrames]
    rw [hslot]
    exact hfind
  · change (s₂.ensureMaterializationWaitSlot t).ownerOf k = none
    rw [hslot]
    exact hown
  · simp only [s₃, State.setFrames_threads, update_self]
    rw [hslot]
    simpa [s₂, s₁] using hd

end Reclaim

/-- What a state of the machine owes to at-most-once materialization. -/
structure AtMostOnce (D : Descriptors) (s : State) : Prop where
  /-- A key has at most one materialization in flight. -/
  entry_unique : (s.materializing.map (·.key)).Nodup
  /-- A key whose instance is stored has none. -/
  entry_unstored : ∀ m ∈ s.materializing, s.findInstance D m.key = none
  /-- At most one instance has ever been stored for a key. -/
  stored_unique : (s.stored.map (·.1)).Nodup
  /-- That instance is still the stored one. -/
  stored_kept : ∀ p ∈ s.stored, s.findInstance D p.1 = some p.2
  /-- Every resolve of a key that has returned gave the stored instance. -/
  returned : ∀ o ∈ s.outcomes, ∀ k a, o.key = some k → o.result = .ok a →
    s.findInstance D k = some a
  /-- After a construction has thrown, its thread removes exactly its own entry, stores
      nothing, and leaves the key to be claimed again. -/
  failed : ∀ t k e rest, (s.threads t).frames = ⟨.materialize k .fail, e⟩ :: rest →
    ∃ s', (machine D).step s ⟨t, .release⟩ = some s' ∧
      (∀ m, m ∈ s'.materializing ↔ m ∈ s.materializing ∧ m ≠ ⟨k, t⟩) ∧
      s'.findInstance D = s.findInstance D ∧ s'.stored = s.stored ∧ Claimable D s' k
  /-- A resolve that has returned or thrown left the stack of its thread as it was. -/
  stack_restored : ∀ o ∈ s.outcomes, o.stackAfter = o.stackBefore

theorem failed_of_inv {D : Descriptors} {s : State} (h : Inv D s) {t : ThreadToken}
    {k : MaterializationKey} {e : List DescriptorId} {rest : List Frame}
    (hf : (s.threads t).frames = ⟨.materialize k .fail, e⟩ :: rest) :
    ∃ s', (machine D).step s ⟨t, .release⟩ = some s' ∧
      (∀ m, m ∈ s'.materializing ↔ m ∈ s.materializing ∧ m ≠ ⟨k, t⟩) ∧
      s'.findInstance D = s.findInstance D ∧ s'.stored = s.stored ∧ Claimable D s' k := by
  have hfirst := List.mem_cons_self (a := (⟨.materialize k .fail, e⟩ : Frame)) (l := rest)
  rw [← hf] at hfirst
  have hentry : (⟨k, t⟩ : MaterializingEntry) ∈ s.materializing :=
    ((h.thread t).owner k).mpr ⟨_, hfirst, owns_materialize.mpr ⟨rfl, rfl⟩⟩
  obtain ⟨hv, hknows⟩ := (h.thread t).ok _ hfirst k .fail rfl
  have hmem : ∀ m, m ∈ (release D s t k none e rest).materializing ↔
      m ∈ s.materializing ∧ m.key ≠ k := by
    intro m
    rw [release_eq]
    exact mem_swapRemove_key h.shared.keys
  have hfind : (release D s t k none e rest).findInstance D = s.findInstance D :=
    findInstance_release D s t k none e rest
  refine ⟨release D s t k none e rest, by simp [machine, step, hf], fun m => ?_, hfind,
    by rw [release_eq]; simp, reclaim hv (hknows.1 (by simp)) ?_ ?_⟩
  · rw [hmem]
    refine and_congr_right fun hm => not_congr ⟨fun hk => ?_, fun hk => by rw [hk]⟩
    -- The key has one owner, so an entry with this key is the entry of this thread.
    obtain ⟨k', u⟩ := m
    obtain rfl : k' = k := hk
    rw [h.shared.owner_unique hm hentry]
  · rw [hfind]
    exact h.shared.unstored _ hentry
  · exact ownerOf_eq_none.mpr fun u hu => ((hmem _).mp hu).2 rfl

/-- **At-most-once materialization**, in every state that any interleaving of the
    threads reaches. -/
theorem at_most_once {D : Descriptors} {s : State} (h : (machine D).Reachable s) :
    AtMostOnce D s := by
  have hinv := reachable_inv h
  exact
    { entry_unique := hinv.shared.keys
      entry_unstored := hinv.shared.unstored
      stored_unique := hinv.shared.once
      stored_kept := hinv.shared.stored
      returned := hinv.shared.returned
      failed := fun _ _ _ _ hf => failed_of_inv hinv hf
      stack_restored := hinv.shared.balanced }

/-! ## A run with a failure, a retry and a waiting thread -/

/-- Thread 1 claims singleton 7 and its constructor throws; thread 2, which waited
    for it, wakes up, claims the key and stores the instance at address 40. -/
def retryActions : List Action :=
  claimActions 1 ⟨7, none⟩ ++ claimActions 2 ⟨7, none⟩ ++
    [⟨1, .construct none⟩, ⟨1, .release⟩, ⟨1, .notify⟩, ⟨2, .wake⟩, ⟨2, .construct (some 40)⟩,
      ⟨2, .release⟩, ⟨2, .notify⟩, ⟨2, .lifecycle true⟩]

theorem at_most_once_retry : ∃ s, (machine allSingletons).run emptyState retryActions = some s ∧
    s.stored = [(⟨7, none⟩, 40)] ∧ AtMostOnce allSingletons s := by
  have hrun : ∃ s, (machine allSingletons).run emptyState retryActions = some s ∧
      s.stored = [(⟨7, none⟩, 40)] := ⟨_, rfl, rfl⟩
  obtain ⟨s, hrun, hstored⟩ := hrun
  exact ⟨s, hrun, hstored, at_most_once ((Machine.Reachable.init emptyState_init).run hrun)⟩

end Ctorium.Materialization
