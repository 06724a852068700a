import Ctorium.Registry.Reachable

/-!
# Session slots

A session bean has a slot, which is its place in the session store of every scope. The
slots are given out by counting, at the first start and by later bindings. In every
reachable context the slots of the descriptors and of the stored instances are below
the count, and the pending session bindings of the scopes have descriptors
(`BeanContext.Reachable.slotted`). So the slot of a new descriptor is free in every
scope.
-/

namespace Ctorium

open Attempt

namespace Registry

variable {r : Registry} {s : StartState} {d : Descriptor}

/-! ## What the merge keeps of all descriptors -/

/-- The merge adds contributed and bound descriptors and sets links: a property of descriptors
    that this keeps holds of the whole table. -/
structure Merged (Q : Descriptor → Prop) : Prop where
  contributed : ∀ (r : Registry) cd, Q (r.contributedDescriptor cd)
  bound : ∀ (r : Registry) typeId nameId priority,
    Q (r.boundDescriptor typeId nameId priority .singleton)
  factory : ∀ d factory, Q d → Q { d with factoryMethodDescriptor := some factory }
  primary : ∀ d primary, Q d → Q { d with primaryDescriptor := some primary }

/-- Linking in place keeps what it keeps of one descriptor. -/
theorem forall_modifyDescriptor {Q : Descriptor → Prop} {f : Descriptor → Descriptor}
    (hf : ∀ d, Q d → Q (f d)) (h : ∀ d ∈ r.descriptors, Q d) (id : DescriptorId) :
    ∀ d ∈ (r.modifyDescriptor id f).descriptors, Q d := by
  intro d hd
  obtain ⟨i, hi⟩ := List.mem_iff_getElem?.mp hd
  rw [modifyDescriptor, List.getElem?_modify] at hi
  obtain ⟨d', hd', rfl⟩ := Option.map_eq_some_iff.mp hi
  have hQ := h d' (List.mem_of_getElem? hd')
  split_ifs
  · exact hf d' hQ
  · exact hQ

theorem forall_mem_append_singleton {Q : Descriptor → Prop} {ds : List Descriptor}
    (h : ∀ d ∈ ds, Q d) {d₀ : Descriptor} (hd₀ : Q d₀) : ∀ d ∈ ds ++ [d₀], Q d := by
  intro d hd
  rcases List.mem_append.mp hd with hd | hd
  · exact h d hd
  · rw [List.mem_singleton.mp hd]
    exact hd₀

/-- The table of a merge: it only grows, and a property that the merge keeps holds of it. -/
structure GrowsWith (Q : Descriptor → Prop) (n : ℕ) (s : StartState) : Prop where
  all : ∀ d ∈ s.registry.descriptors, Q d
  length : n ≤ s.registry.descriptors.length

variable {Q : Descriptor → Prop} {n : ℕ}

/-- A contribution appends a descriptor with `Q` or none. -/
theorem GrowsWith.mergeContribution (hQ : Merged Q) (h : GrowsWith Q n s)
    (cd : ContributedDescriptor) : GrowsWith Q n (mergeContribution s cd).state := by
  unfold Registry.mergeContribution
  split
  · refine ⟨forall_mem_append_singleton h.all (hQ.contributed _ cd), ?_⟩
    exact h.length.trans (List.length_append ▸ Nat.le_add_right _ _)
  · split
    · split <;> exact h
    · exact h

/-- A pending binding appends a descriptor with `Q` or none. -/
theorem GrowsWith.mergePendingSingleton (hQ : Merged Q) (h : GrowsWith Q n s)
    (pb : PendingRuntimeSingleton) : GrowsWith Q n (mergePendingSingleton s pb).state := by
  simp only [Registry.mergePendingSingleton]
  split_ifs
  · exact ⟨h.all, h.length⟩
  · refine ⟨forall_mem_append_singleton h.all (hQ.bound _ _ _ _), ?_⟩
    exact h.length.trans (List.length_append ▸ Nat.le_add_right _ _)

theorem GrowsWith.modifyDescriptor {f : Descriptor → Descriptor} (hf : ∀ d, Q d → Q (f d))
    (h : GrowsWith Q n s) (id : DescriptorId) :
    GrowsWith Q n { s with registry := s.registry.modifyDescriptor id f } :=
  ⟨forall_modifyDescriptor hf h.all id, by simpa [Registry.modifyDescriptor] using h.length⟩

theorem GrowsWith.linkFactory (hQ : Merged Q) (h : GrowsWith Q n s)
    (link : DescriptorId × Identity) : GrowsWith Q n (linkFactory s link).state := by
  unfold Registry.linkFactory
  split
  · exact h
  · exact h.modifyDescriptor (fun d => hQ.factory d _) _

theorem GrowsWith.linkAlias (hQ : Merged Q) (h : GrowsWith Q n s)
    (link : DescriptorId × Identity) : GrowsWith Q n (linkAlias s link).state := by
  unfold Registry.linkAlias
  split
  · exact h
  · exact h.modifyDescriptor (fun d => hQ.primary d _) _

/-- The phases before the numbering append descriptors with `Q` and link in place. -/
theorem GrowsWith.mergeAndLink (hQ : Merged Q) (h : GrowsWith Q n s) :
    GrowsWith Q n (mergeAndLink s).state := by
  let P := GrowsWith Q n
  refine andThen_invariant (P := P) (andThen_invariant (P := P) ?_ fun s hs => ?_) fun s hs => ?_
  · exact forEach_invariant (P := P) (fun s cd _ hs => hs.mergeContribution hQ cd) h
  · exact forEach_invariant (P := P) (fun s pb _ hs => hs.mergePendingSingleton hQ pb) hs
  · refine andThen_invariant (P := P) ?_ fun s hs => ?_
    · exact forEach_invariant (P := P) (fun s link _ hs => hs.linkFactory hQ link)
        ⟨hs.all, hs.length⟩
    · exact forEach_invariant (P := P) (fun s link _ hs => hs.linkAlias hQ link) hs

/-! ## Slots of descriptors -/

/-- The slots of the descriptors are below the count. -/
def SlotsBelow (r : Registry) : Prop :=
  ∀ d ∈ r.descriptors, ∀ slot, d.sessionSlot = some slot → slot < r.sessionSlotCount

theorem merged_slots (n : ℕ) :
    Merged fun d => ∀ slot, d.sessionSlot = some slot → slot < n where
  contributed _ _ := nofun
  bound _ _ _ _ := nofun
  factory _ _ h := h
  primary _ _ h := h

theorem length_numberSessions (slot : SessionSlot) (ds : List Descriptor) :
    (numberSessions slot ds).length = ds.length := by
  have h := congrArg List.length (map_numberSessions (g := fun _ => ()) (fun _ _ => rfl) slot ds)
  simpa using h

/-- The slots given out stay below their count. -/
theorem numberSessions_lt {slot k : ℕ} {ds : List Descriptor} {d : Descriptor}
    (hd : d ∈ numberSessions k ds) (hslot : d.sessionSlot = some slot) :
    slot < k + ds.countP fun d => d.lifetime = .session := by
  induction ds generalizing k with
  | nil => exact absurd hd List.not_mem_nil
  | cons e ds ih =>
    rw [numberSessions] at hd
    split_ifs at hd with he
    · rw [List.countP_cons_of_pos (by simpa using he)]
      rcases List.mem_cons.mp hd with rfl | hd
      · obtain rfl := Option.some.inj hslot
        omega
      · have := ih hd
        omega
    · rw [List.countP_cons_of_neg (by simpa using he)]
      rcases List.mem_cons.mp hd with rfl | hd
      · cases hslot
      · exact ih hd

/-- start() numbers every session from zero and remembers the count. -/
theorem slotsBelow_finishStart (s : StartState) (ctx : Addr) :
    (finishStart s ctx).registry.SlotsBelow := by
  intro d hd slot hslot
  have hlt := numberSessions_lt (k := 0) hd hslot
  rwa [Nat.zero_add] at hlt

/-- Candidates are descriptors of the table. -/
theorem Indexed.candidate_lt (h : r.Indexed) {typeId : TypeId} {nameId : NameId}
    {id : DescriptorId} (hid : id ∈ (r.typeIndex.candidatesFor typeId nameId).getD []) :
    id < r.descriptors.length := by
  have hins : id ∈ r.typeIndex.inserted typeId nameId := List.mem_append_left _ hid
  obtain ⟨d, hd, -⟩ := mem_keyIds.mp ((h.inserted typeId nameId).mem_iff.mp hins)
  exact (List.getElem?_eq_some_iff.mp hd).1

/-- A slot that is read is below the count. -/
theorem SlotsBelow.lt_of_slotOf (h : r.SlotsBelow) {id : DescriptorId} {slot : SessionSlot}
    (hslot : r.sessionSlotOf id = some slot) : slot < r.sessionSlotCount := by
  obtain ⟨d, hd, hslot⟩ := Option.bind_eq_some_iff.mp hslot
  exact h d (List.mem_of_getElem? hd) slot hslot

end Registry

/-! ## Slots of stored instances -/

namespace ScopedContext

/-- The instances of a scope are in slots below the count, and its pending bindings have
    descriptors in a table of the given length. -/
structure Slotted (sc : ScopedContext) (count length : ℕ) : Prop where
  stored : ∀ slot, sc.sessionStore.instances slot ≠ none → slot < count
  pending : ∀ psb ∈ sc.pendingRuntimeSessions, psb.descId < length

variable {sc : ScopedContext} {count length : ℕ}

theorem slotted_fresh (count length : ℕ) : Slotted {} count length :=
  ⟨fun _ h => absurd rfl h, nofun⟩

/-- A scope stays within a larger root. -/
theorem Slotted.mono (h : sc.Slotted count length) {count' length' : ℕ} (hc : count ≤ count')
    (hl : length ≤ length') : sc.Slotted count' length' :=
  ⟨fun slot hs => (h.stored slot hs).trans_le hc, fun psb hp => (h.pending psb hp).trans_le hl⟩

/-- A store keeps to the slots below the count if the new one is. -/
theorem stored_store {ss : SessionStore} (h : ∀ slot, ss.instances slot ≠ none → slot < count)
    {slot : Option SessionSlot} (hslot : ∀ n, slot = some n → n < count) (descId : DescriptorId)
    (mem : Addr) : ∀ n, (ss.store slot descId mem).instances n ≠ none → n < count := by
  intro n hn
  cases slot with
  | none => exact h n hn
  | some m =>
    by_cases hnm : n = m
    · exact hnm ▸ hslot m rfl
    · refine h n ?_
      simpa [SessionStore.store, Function.update_of_ne hnm] using hn

/-- A start clears the store before it fills it. -/
theorem Slotted.beginStart (h : sc.Slotted count length) (n : ℕ) :
    (sc.beginStart n).Slotted count length := ⟨fun _ hs => absurd rfl hs, h.pending⟩

/-- The slot stored to is the descriptor's own. -/
theorem Slotted.storePending (h : sc.Slotted count length) {slot : Option SessionSlot}
    (hslot : ∀ n, slot = some n → n < count) (psb : PendingRuntimeSession) :
    (sc.storePending slot psb).Slotted count length :=
  ⟨stored_store h.stored hslot _ _, h.pending⟩

theorem Slotted.finishStart (h : sc.Slotted count length) : sc.finishStart.Slotted count length :=
  ⟨h.stored, nofun⟩

/-- Destruction clears a cell. -/
theorem Slotted.destroyInstance (h : sc.Slotted count length) (slot : Option SessionSlot)
    (descId : DescriptorId) (deferDeallocation : Bool) :
    (sc.destroyInstance slot descId deferDeallocation).Slotted count length := by
  have hnull : ∀ n, (sc.sessionStore.nullSlot slot).instances n ≠ none → n < count := by
    intro n hn
    cases slot with
    | none => exact h.stored n hn
    | some m =>
      by_cases hnm : n = m
      · subst hnm
        exact absurd (Function.update_self _ _ _) hn
      · refine h.stored n ?_
        simpa [SessionStore.nullSlot, Function.update_of_ne hnm] using hn
  unfold ScopedContext.destroyInstance
  split
  · exact h
  · split_ifs
    · refine ⟨fun n hn => hnull n ?_, h.pending⟩
      cases slot <;> exact hn
    · exact ⟨hnull, h.pending⟩

/-- A finished stop leaves no instance. -/
theorem Slotted.finishStop (h : sc.Slotted count length) (deferDeallocation : Bool) :
    (sc.finishStop deferDeallocation).Slotted count length :=
  ⟨fun _ hs => absurd rfl hs, h.pending⟩

end ScopedContext

namespace BeanContext

variable {b : BeanContext}

/-- What holds of the slots in every reachable context. -/
structure Slotted (b : BeanContext) : Prop where
  below : b.core.SlotsBelow
  scopes : ∀ scope, (b.scopes scope).Slotted b.core.sessionSlotCount b.core.descriptors.length
  idle : b.core.started = false → ∀ scope, (b.scopes scope).scopeState = .stopped ∧
    ∀ slot, (b.scopes scope).sessionStore.instances slot = none

theorem slotted_fresh (S : StdSort) (self : Addr) : Slotted (fresh S self) where
  below := nofun
  scopes _ := ScopedContext.slotted_fresh _ _
  idle _ _ := ⟨rfl, fun _ => rfl⟩

/-- A change of the registry that keeps what the slots depend on. -/
theorem Slotted.withCore (h : b.Slotted) {core : Registry} (hbelow : core.SlotsBelow)
    (hcount : b.core.sessionSlotCount ≤ core.sessionSlotCount)
    (hlength : b.core.descriptors.length ≤ core.descriptors.length)
    (hstarted : core.started = false → b.core.started = false) : (b.withCore core).Slotted :=
  ⟨hbelow, fun scope => (h.scopes scope).mono hcount hlength, fun hs => h.idle (hstarted hs)⟩

/-- A change of one scope of a started context. -/
theorem Slotted.setScope (h : b.Slotted) (scope : ScopeId) {sc : ScopedContext}
    (hsc : sc.Slotted b.core.sessionSlotCount b.core.descriptors.length)
    (hidle : b.core.started = false →
      sc.scopeState = .stopped ∧ ∀ slot, sc.sessionStore.instances slot = none) :
    (b.setScope scope sc).Slotted := by
  refine ⟨h.below, fun scope' => ?_, fun hs scope' => ?_⟩
  · by_cases hscope : scope' = scope
    · subst hscope
      simpa [BeanContext.setScope] using hsc
    · simpa [BeanContext.setScope, Function.update_of_ne hscope] using h.scopes scope'
  · by_cases hscope : scope' = scope
    · subst hscope
      simpa [BeanContext.setScope] using hidle hs
    · simpa [BeanContext.setScope, Function.update_of_ne hscope] using h.idle hs scope'

/-- start() of the root lets the counts grow only. -/
theorem Slotted.start (h : b.Slotted) : b.start.state.Slotted := by
  rcases Registry.start_cases b.core b.self with ⟨-, heq⟩ | ⟨_, -, -, heq⟩ | ⟨hnot, -, heq⟩
  · rw [BeanContext.start, heq]
    exact h
  · rw [BeanContext.start, heq]
    exact h.withCore h.below le_rfl le_rfl (by rintro ⟨⟩)
  · rw [BeanContext.start, heq]
    have hmerged : Registry.GrowsWith (fun d => ∀ slot, d.sessionSlot = some slot →
        slot < b.core.sessionSlotCount) b.core.descriptors.length
        (Registry.mergeAndLink { registry := b.core }).state :=
      Registry.GrowsWith.mergeAndLink (Registry.merged_slots _) ⟨h.below, le_rfl⟩
    cases hfail : (Registry.merge { registry := b.core } b.self).failure with
    | none =>
      -- No scope has been started before, so there are no stored instances.
      rw [(Registry.merge_of_ok hfail).2.2.2]
      refine ⟨Registry.slotsBelow_finishStart _ _, fun scope => ?_, (by rintro ⟨⟩)⟩
      refine ⟨fun slot hs => absurd ((h.idle hnot scope).2 slot) hs, fun psb hp => ?_⟩
      refine ((h.scopes scope).pending psb hp).trans_le (hmerged.length.trans ?_)
      refine le_trans ?_ (Registry.length_numberSessions 0 _).ge
      exact (List.length_append ▸ Nat.le_add_right _ _)
    | some e =>
      have hframe := (Registry.Frame.refl b.core).merge_of_fail hfail
      have hcount := hframe.sessionSlotCount
      refine h.withCore ?_ hcount.ge ?_ fun _ => hnot
      · rcases Registry.merge_of_fail hfail with hstate | hstate <;>
          · rw [Registry.SlotsBelow, hcount, hstate]
            exact hmerged.all
      · rcases Registry.merge_of_fail hfail with hstate | hstate <;>
          · rw [hstate]
            exact hmerged.length

/-! ## Bindings -/

/-- The registry after an append of a descriptor without a slot. -/
theorem Slotted.appendCandidate (h : b.Slotted) {core : Registry} {d : Descriptor}
    (hd : d.sessionSlot = none) (hds : core.descriptors = b.core.descriptors ++ [d])
    (hcount : core.sessionSlotCount = b.core.sessionSlotCount)
    (hstarted : core.started = b.core.started) : (b.withCore core).Slotted := by
  refine h.withCore (fun d' hd' slot hslot => ?_) hcount.ge ?_ fun hs => hstarted ▸ hs
  · rw [hds] at hd'
    rw [hcount]
    refine Registry.forall_mem_append_singleton (Q := fun d => ∀ slot, d.sessionSlot = some slot →
      slot < b.core.sessionSlotCount) h.below ?_ d' hd' slot hslot
    rw [hd]
    exact nofun
  · rw [hds, List.length_append]
    exact Nat.le_add_right _ _

/-- A binding to the root appends at most one descriptor without a slot. -/
theorem Slotted.bindSingleton (h : b.Slotted) (type : CppType) (name : String) (priority : ℤ)
    (object : Addr) : (b.bindSingleton type name priority object).state.Slotted := by
  simp only [BeanContext.bindSingleton, Registry.bindSingleton]
  split_ifs
  · exact h.withCore h.below le_rfl le_rfl id
  · simp only [Registry.bindSingletonStarted]
    split_ifs
    · exact h.withCore h.below le_rfl le_rfl id
    · exact h.appendCandidate rfl rfl rfl rfl
  · unfold Registry.bindSingletonPending
    split_ifs <;> exact h.withCore h.below le_rfl le_rfl id

/-- The descriptor of a session binding is in the table, and its slot is below the count. -/
theorem Slotted.sessionDescriptor (h : b.Slotted) (typeId : TypeId) (nameId : NameId)
    (priority : ℤ) (hids : ∀ id ∈ (b.core.typeIndex.candidatesFor typeId nameId).getD [],
      id < b.core.descriptors.length) :
    (b.withCore (b.core.sessionDescriptor typeId nameId priority).2).Slotted ∧
      (b.core.sessionDescriptor typeId nameId priority).1 <
        (b.core.sessionDescriptor typeId nameId priority).2.descriptors.length := by
  unfold Registry.sessionDescriptor
  split
  · rename_i id hid
    refine ⟨h, hids id ?_⟩
    unfold Registry.reusableSession at hid
    split_ifs at hid
    exact List.mem_of_find?_eq_some hid
  · have hlast : ∀ d : Descriptor, b.core.descriptors.length < (b.core.descriptors ++ [d]).length :=
      fun d => by simp
    simp only [Registry.appendSession]
    split_ifs with hstarted
    · refine ⟨h.withCore (fun d hd slot hslot => ?_) (Nat.le_succ _)
        (List.length_append ▸ Nat.le_add_right _ _) id, hlast _⟩
      refine Registry.forall_mem_append_singleton (Q := fun d => ∀ slot, d.sessionSlot = some slot →
        slot < b.core.sessionSlotCount + 1) (fun d hd slot hs => ?_) ?_ d hd slot hslot
      · exact (h.below d hd slot hs).trans (Nat.lt_succ_self _)
      · rintro slot hs
        obtain rfl := Option.some.inj hs
        exact Nat.lt_succ_self _
    · exact ⟨h.appendCandidate rfl rfl rfl rfl, hlast _⟩

/-- The object is stored in its descriptor's slot or queued. -/
theorem Slotted.placeSession (h : b.Slotted) (scope : ScopeId) {descId : DescriptorId}
    (hid : descId < b.core.descriptors.length) (object : Addr) :
    (b.placeSession scope descId object).state.Slotted := by
  simp only [BeanContext.placeSession]
  split_ifs with hpending hrunning hfound
  · exact h
  · refine h.setScope scope ⟨(h.scopes scope).stored, fun psb hp => ?_⟩ fun hs => h.idle hs scope
    rcases List.mem_append.mp hp with hp | hp
    · exact (h.scopes scope).pending psb hp
    · rw [List.mem_singleton.mp hp]
      exact hid
  · exact h
  · refine h.setScope scope ⟨?_, (h.scopes scope).pending⟩ fun hs => ?_
    · exact ScopedContext.stored_store (h.scopes scope).stored (fun _ => h.below.lt_of_slotOf)
        descId object
    · -- The scope is running, so the context is started.
      have hstopped := (h.idle hs scope).1
      rw [not_not.mp hrunning] at hstopped
      cases hstopped

/-- A new descriptor is neither pending nor stored in any scope. -/
theorem placeSession_new (h : b.Slotted) (scope : ScopeId) (typeId : TypeId) (nameId : NameId)
    (priority : ℤ) (object : Addr) :
    ((b.withCore (b.core.appendSession typeId nameId priority)).placeSession scope
      b.core.descriptors.length object).failure = none := by
  -- The descriptor is new, so nothing waits under it and its slot is free.
  have hpending : ((b.scopes scope).pendingRuntimeSessions.any fun psb =>
      psb.descId == b.core.descriptors.length) = false := by
    rw [List.any_eq_false]
    intro psb hpsb
    have hlt := (h.scopes scope).pending psb hpsb
    simpa using Nat.ne_of_lt hlt
  have hfree : (b.scopes scope).scopeState = .running →
      (b.scopes scope).sessionStore.find ((b.core.appendSession typeId nameId
        priority).sessionSlotOf b.core.descriptors.length) = none := by
    intro hrunning
    have hstarted : b.core.started = true := by
      by_contra hnot
      have hstopped := (h.idle (Bool.eq_false_of_not_eq_true hnot) scope).1
      rw [hrunning] at hstopped
      cases hstopped
    have hslot : (b.core.appendSession typeId nameId priority).sessionSlotOf
        b.core.descriptors.length = some b.core.sessionSlotCount := by
      simp [Registry.appendSession, hstarted, Registry.sessionSlotOf, Registry.publishCandidate,
        Registry.sortAllCandidates, Registry.appendCandidate, Registry.nextSessionSlot]
    have hnone : (b.scopes scope).sessionStore.instances b.core.sessionSlotCount = none := by
      by_contra hsome
      exact absurd ((h.scopes scope).stored _ hsome) (lt_irrefl _)
    rw [hslot, SessionStore.find, hnone]
    exact ite_self _
  simp only [BeanContext.placeSession, BeanContext.withCore, hpending]
  by_cases hrunning : (b.scopes scope).scopeState = .running
  · simp [hrunning, hfree hrunning]
  · simp [hrunning]

/-- A descriptor bound on a started root has the next slot, still free in every scope. -/
theorem Slotted.bindSession (h : b.Slotted) (hindexed : b.core.Indexed) (scope : ScopeId)
    (type : CppType) (name : String) (priority : ℤ) (object : Addr) :
    (b.bindSession scope type name priority object).state.Slotted := by
  have hintern : (b.withCore (b.core.internSession type name)).Slotted :=
    h.withCore h.below le_rfl le_rfl id
  simp only [BeanContext.bindSession]
  split_ifs
  · exact h
  · exact hintern
  · obtain ⟨hdesc, hlt⟩ := hintern.sessionDescriptor (b.core.sessionType type).1
      (b.core.nameInterning.intern name).1 priority
      fun id hid => (hindexed.internSession type name).candidate_lt hid
    exact hdesc.placeSession scope hlt object

/-! ## Default names and scopes -/

theorem Slotted.defaultNamed (h : b.Slotted) (scope : Option ScopeId) (type : CppType)
    (name : String) : (b.defaultNamed scope type name).state.Slotted := by
  have hcore : (b.withCore (b.core.withNames (b.core.nameInterning.intern name).2)).Slotted :=
    h.withCore h.below le_rfl le_rfl id
  simp only [BeanContext.defaultNamed]
  split_ifs
  · exact h
  · exact h
  · split
    · exact h
    · split
      · exact hcore.withCore h.below le_rfl le_rfl id
      · next sc =>
        exact hcore.setScope sc ⟨(hcore.scopes sc).stored, (hcore.scopes sc).pending⟩
          fun hs => hcore.idle hs sc

theorem Slotted.clearDefaultNamed (h : b.Slotted) (scope : Option ScopeId) (type : CppType) :
    (b.clearDefaultNamed scope type).state.Slotted := by
  simp only [BeanContext.clearDefaultNamed]
  split_ifs
  · exact h
  · split
    · exact h
    · split
      · exact h.withCore h.below le_rfl le_rfl id
      · next sc =>
        split_ifs
        · exact h
        · exact h.setScope sc ⟨(h.scopes sc).stored, (h.scopes sc).pending⟩ fun hs => h.idle hs sc

/-- The queued bindings go to their slots, all below the count. -/
theorem Slotted.startScope (h : b.Slotted) (scope : ScopeId) :
    (b.startScope scope).state.Slotted := by
  simp only [BeanContext.startScope]
  split_ifs with hstarted
  · exact h
  · split
    · exact h
    · exact h
    · refine h.setScope scope ?_ fun hs => absurd hs (by simpa using hstarted)
      refine ScopedContext.Slotted.finishStart ?_
      refine List.foldlRecOn (motive := fun sc : ScopedContext =>
        sc.Slotted b.core.sessionSlotCount b.core.descriptors.length) _ _
        ((h.scopes scope).beginStart _) fun sc hsc psb _ => ?_
      exact hsc.storePending (fun _ => h.below.lt_of_slotOf) psb

/-- A stop empties the slots one after the other. -/
theorem Slotted.runScopeStop (h : b.Slotted) {scope : ScopeId}
    (hrunning : (b.scopes scope).scopeState = .running) (deferDeallocation : Bool) :
    (b.runScopeStop scope deferDeallocation).Slotted := by
  refine h.setScope scope ?_ fun hs => ?_
  · refine ScopedContext.Slotted.finishStop ?_ _
    refine List.foldlRecOn (motive := fun sc : ScopedContext =>
      sc.Slotted b.core.sessionSlotCount b.core.descriptors.length) _ _
      ⟨(h.scopes scope).stored, (h.scopes scope).pending⟩ fun sc hsc id _ => ?_
    exact hsc.destroyInstance _ _ _
  · have hstopped := (h.idle hs scope).1
    rw [hrunning] at hstopped
    cases hstopped

theorem Slotted.stopScope (h : b.Slotted) (scope : ScopeId) : (b.stopScope scope).Slotted := by
  unfold BeanContext.stopScope
  split_ifs with hrunning
  · exact h.runScopeStop hrunning false
  · exact h

theorem Slotted.restartScope (h : b.Slotted) (scope : ScopeId) :
    (b.restartScope scope).state.Slotted := by
  unfold BeanContext.restartScope
  refine Slotted.startScope ?_ scope
  split_ifs with hrunning
  · exact h.runScopeStop hrunning true
  · exact h.stopScope scope

/-- Every call keeps the slots in order. -/
theorem Slotted.exec (h : b.Slotted) (hindexed : b.core.Indexed) (call : Call) :
    (b.exec call).state.Slotted := by
  cases call with
  | discover cds =>
    simp only [BeanContext.exec, BeanContext.discover, Registry.submitContribution]
    split_ifs
    · exact h
    · exact h.withCore h.below le_rfl le_rfl id
  | bindSingleton type name priority object => exact h.bindSingleton _ _ _ _
  | bindSession scope type name priority object => exact h.bindSession hindexed _ _ _ _ _
  | defaultNamed scope type name => exact h.defaultNamed _ _ _
  | clearDefaultNamed scope type => exact h.clearDefaultNamed _ _
  | start => exact h.start
  | startScope scope => exact h.startScope scope
  | stopScope scope => exact h.stopScope scope
  | restartScope scope => exact h.restartScope scope

/-- The slots of reachable contexts are in order. -/
theorem Reachable.slotted (h : b.Reachable) : b.Slotted := by
  obtain ⟨S, self, calls, rfl⟩ := h
  refine (execAll_invariant (P := fun b => b.core.Indexed ∧ b.Slotted)
    (fun b call hb => ⟨exec_indexed hb.1 call, hb.2.exec hb.1 call⟩)
    ⟨Registry.indexed_empty S, slotted_fresh S self⟩ calls).2

end BeanContext

end Ctorium
