import Ctorium.Registry.Slots
import Ctorium.Registry.Wiring

/-!
# The numbering of session beans

The slot of a session bean is its place in the session stores of all scopes, so two
beans must never have the same one. In every reachable context

* no two descriptors have the same slot, and no descriptor has one before the start;
* every session bean of a started registry has a slot (`Registry.Numbered`);
* the pending session bindings of a scope are of distinct session beans
  (`BeanContext.Reachable.numbered`).
-/

namespace Ctorium

open Attempt

namespace Registry

variable {r : Registry} {s : StartState}

/-! ## Slots are distinct -/

/-- The slots of the descriptors are distinct, and only session beans have slots. A started
    registry has given a slot to every session bean, and a registry that is not started to none. -/
structure Numbered (r : Registry) : Prop where
  distinct : ∀ d d' slot, r.sessionSlotOf d = some slot → r.sessionSlotOf d' = some slot → d = d'
  slotted : ∀ d ∈ r.descriptors, d.sessionSlot ≠ none → d.lifetime = .session
  sessions : r.started = true → ∀ d ∈ r.descriptors, d.lifetime = .session → d.sessionSlot ≠ none
  unnumbered : r.started = false → ∀ d ∈ r.descriptors, d.sessionSlot = none
  unmerged : r.started = false → r.beanContextDescId = none

theorem numbered_empty (S : StdSort) : ({ stdSort := S } : Registry).Numbered :=
  ⟨nofun, nofun, nofun, nofun, fun _ => rfl⟩

/-- Appended descriptors leave the slots of the others. -/
theorem sessionSlotOf_of_append {r' : Registry} {ds : List Descriptor}
    (hds : r'.descriptors = r.descriptors ++ ds) {d : DescriptorId}
    (hd : d < r.descriptors.length) : r'.sessionSlotOf d = r.sessionSlotOf d := by
  rw [sessionSlotOf, hds, List.getElem?_append_left hd, sessionSlotOf]

theorem lt_length_of_sessionSlotOf {d : DescriptorId} {slot : SessionSlot}
    (h : r.sessionSlotOf d = some slot) : d < r.descriptors.length := by
  obtain ⟨_, hd, -⟩ := Option.bind_eq_some_iff.mp h
  exact (List.getElem?_eq_some_iff.mp hd).1

/-- An append of a descriptor without a slot, or with a new one. -/
theorem Numbered.append (h : r.Numbered) {r' : Registry} {d₀ : Descriptor}
    (hds : r'.descriptors = r.descriptors ++ [d₀]) (hstarted : r'.started = r.started)
    (hid : r'.beanContextDescId = r.beanContextDescId)
    (hnew : ∀ slot, d₀.sessionSlot = some slot →
      r.started = true ∧ d₀.lifetime = .session ∧ ∀ d, r.sessionSlotOf d ≠ some slot)
    (hsession : r.started = true → d₀.lifetime = .session → d₀.sessionSlot ≠ none) :
    r'.Numbered := by
  -- A slot is one of before, or that of the new descriptor.
  have hslot : ∀ d slot, r'.sessionSlotOf d = some slot → r.sessionSlotOf d = some slot ∨
      d = r.descriptors.length ∧ d₀.sessionSlot = some slot := by
    intro d slot hd
    have hlt := lt_length_of_sessionSlotOf hd
    rw [hds, List.length_append, List.length_singleton] at hlt
    rcases Nat.lt_or_ge d r.descriptors.length with hold | hge
    · exact .inl (sessionSlotOf_of_append hds hold ▸ hd)
    · obtain rfl : d = r.descriptors.length := Nat.le_antisymm (Nat.le_of_lt_succ hlt) hge
      refine .inr ⟨rfl, ?_⟩
      simpa [sessionSlotOf, hds] using hd
  refine ⟨fun d d' slot hd hd' => ?_, fun d hd => ?_, fun hs d hd => ?_, fun hs d hd => ?_,
    fun hs => ?_⟩
  · rcases hslot d slot hd with hold | ⟨rfl, hlast⟩
    · rcases hslot d' slot hd' with hold' | ⟨-, hlast⟩
      · exact h.distinct d d' slot hold hold'
      · exact absurd hold ((hnew slot hlast).2.2 d)
    · rcases hslot d' slot hd' with hold' | ⟨rfl, -⟩
      · exact absurd hold' ((hnew slot hlast).2.2 d')
      · rfl
  · rw [hds] at hd
    rcases List.mem_append.mp hd with hd | hd
    · exact h.slotted d hd
    · rw [List.mem_singleton.mp hd]
      intro hsome
      obtain ⟨slot, hslot⟩ := Option.ne_none_iff_exists'.mp hsome
      exact (hnew slot hslot).2.1
  · rw [hstarted] at hs
    rw [hds] at hd
    rcases List.mem_append.mp hd with hd | hd
    · exact h.sessions hs d hd
    · rw [List.mem_singleton.mp hd]
      exact hsession hs
  · rw [hstarted] at hs
    rw [hds] at hd
    rcases List.mem_append.mp hd with hd | hd
    · exact h.unnumbered hs d hd
    · rw [List.mem_singleton.mp hd]
      by_contra hsome
      obtain ⟨slot, hslot⟩ := Option.ne_none_iff_exists'.mp hsome
      rw [(hnew slot hslot).1] at hs
      cases hs
  · rw [hid]
    exact h.unmerged (hstarted ▸ hs)

/-! ## The numbering at the start -/

theorem le_of_numberSessions {ds : List Descriptor} {k i slot : ℕ}
    (h : (numberSessions k ds)[i]?.bind Descriptor.sessionSlot = some slot) : k ≤ slot := by
  induction ds generalizing k i with
  | nil => cases h
  | cons d ds ih =>
    rw [numberSessions] at h
    split_ifs at h
    · cases i with
      | zero => exact (Option.some.inj h).le
      | succ i => exact (Nat.le_succ k).trans (ih h)
    · cases i with
      | zero => cases h
      | succ i => exact ih h

/-- No slot is given to two descriptors. -/
theorem numberSessions_distinct {ds : List Descriptor} {k i j slot : ℕ}
    (hi : (numberSessions k ds)[i]?.bind Descriptor.sessionSlot = some slot)
    (hj : (numberSessions k ds)[j]?.bind Descriptor.sessionSlot = some slot) : i = j := by
  induction ds generalizing k i j with
  | nil => cases hi
  | cons d ds ih =>
    rw [numberSessions] at hi hj
    split_ifs at hi hj
    · -- The first descriptor has slot `k`, and the later ones have larger slots.
      cases i with
      | zero =>
        cases j with
        | zero => rfl
        | succ j =>
          obtain rfl := Option.some.inj hi
          exact absurd (le_of_numberSessions hj) (Nat.not_succ_le_self _)
      | succ i =>
        cases j with
        | zero =>
          obtain rfl := Option.some.inj hj
          exact absurd (le_of_numberSessions hi) (Nat.not_succ_le_self _)
        | succ j => exact congrArg Nat.succ (ih hi hj)
    · cases i with
      | zero => cases hi
      | succ i =>
        cases j with
        | zero => cases hj
        | succ j => exact congrArg Nat.succ (ih hi hj)

/-- Every session has a slot. -/
theorem numberSessions_sessions {ds : List Descriptor} {k : ℕ} {d : Descriptor}
    (hd : d ∈ numberSessions k ds) (hsession : d.lifetime = .session) : d.sessionSlot ≠ none := by
  induction ds generalizing k with
  | nil => exact absurd hd List.not_mem_nil
  | cons e ds ih =>
    rw [numberSessions] at hd
    split_ifs at hd with he
    · rcases List.mem_cons.mp hd with rfl | hd
      · rintro ⟨⟩
      · exact ih hd
    · rcases List.mem_cons.mp hd with rfl | hd
      · exact absurd hsession he
      · exact ih hd

/-- Nothing but a session has one. -/
theorem numberSessions_slotted {ds : List Descriptor} {k : ℕ} {d : Descriptor}
    (hd : d ∈ numberSessions k ds) (hslot : d.sessionSlot ≠ none) : d.lifetime = .session := by
  induction ds generalizing k with
  | nil => exact absurd hd List.not_mem_nil
  | cons e ds ih =>
    rw [numberSessions] at hd
    split_ifs at hd with he
    · rcases List.mem_cons.mp hd with rfl | hd
      · exact he
      · exact ih hd
    · rcases List.mem_cons.mp hd with rfl | hd
      · exact absurd rfl hslot
      · exact ih hd

/-- After start() exactly the sessions have slots, all of them distinct. -/
theorem numbered_finishStart (s : StartState) (ctx : Addr) :
    (finishStart s ctx).registry.Numbered :=
  ⟨fun _ _ _ => numberSessions_distinct, fun _ => numberSessions_slotted,
    fun _ _ => numberSessions_sessions, nofun, nofun⟩

theorem merged_unnumbered : Merged fun d => d.sessionSlot = none where
  contributed _ _ := rfl
  bound _ _ _ _ := rfl
  factory _ _ h := h
  primary _ _ h := h

/-- A start() that fails has numbered nothing. -/
theorem Numbered.start (h : r.Numbered) (ctx : Addr) : (r.start ctx).state.Numbered := by
  rcases start_cases r ctx with ⟨-, heq⟩ | ⟨descId, hnot, hid, -⟩ | ⟨hnot, hid, heq⟩
  · rw [heq]
    exact h
  · rw [h.unmerged hnot] at hid
    cases hid
  · rw [heq]
    cases hfail : (merge { registry := r } ctx).failure with
    | none =>
      rw [(merge_of_ok hfail).2.2.2]
      exact numbered_finishStart _ _
    | some e =>
      have hframe := (Frame.refl r).merge_of_fail hfail
      have hmerged : GrowsWith (fun d => d.sessionSlot = none) r.descriptors.length
          (mergeAndLink { registry := r }).state :=
        GrowsWith.mergeAndLink merged_unnumbered ⟨h.unnumbered hnot, le_rfl⟩
      -- Before the first start no descriptor has a slot, and the merge gives none.
      have hall : ∀ d ∈ (merge { registry := r } ctx).state.registry.descriptors,
          d.sessionSlot = none := by
        rcases merge_of_fail hfail with hstate | hstate <;>
          · rw [hstate]
            exact hmerged.all
      refine ⟨fun d d' slot hd _ => ?_, fun d hd hslot => absurd (hall d hd) hslot, fun hs => ?_,
        fun _ => hall, fun _ => ?_⟩
      · obtain ⟨e, he, hslot⟩ := Option.bind_eq_some_iff.mp hd
        rw [hall e (List.mem_of_getElem? he)] at hslot
        cases hslot
      · rw [hframe.started.trans hnot] at hs
        cases hs
      · rw [hframe.beanContextDescId, hid]

/-- In a started registry, the session beans are those with a slot. -/
theorem Numbered.slotOf_iff (h : r.Numbered) (hs : r.started = true) {d : DescriptorId} :
    r.sessionSlotOf d ≠ none ↔ r.descriptors[d]?.map Descriptor.lifetime = some .session := by
  rw [sessionSlotOf]
  cases hd : r.descriptors[d]? with
  | none => simp
  | some desc =>
    have hmem := List.mem_of_getElem? hd
    simp only [Option.bind_some, Option.map_some, Option.some.injEq]
    exact ⟨h.slotted desc hmem, h.sessions hs desc hmem⟩

/-! ## Lifetimes -/

/-- The lifetimes of the descriptors. -/
def lifetimes (r : Registry) : List Lifetime := r.descriptors.map Descriptor.lifetime

theorem lifetimes_prefix_of_append {r' : Registry} {ds : List Descriptor}
    (hds : r'.descriptors = r.descriptors ++ ds) : r.lifetimes <+: r'.lifetimes := by
  rw [lifetimes, lifetimes, hds, List.map_append]
  exact List.prefix_append _ _

/-- The merge appends lifetimes and changes none. -/
theorem mergeAndLink_lifetimes (r : Registry) :
    r.lifetimes <+: (mergeAndLink { registry := r }).state.registry.lifetimes := by
  let P := fun s : StartState => r.lifetimes <+: s.registry.lifetimes
  have happend : ∀ (s : StartState) (d : Descriptor), P s →
      r.lifetimes <+: (s.registry.descriptors ++ [d]).map Descriptor.lifetime := fun s d hs =>
    hs.trans (List.map_append ▸ List.prefix_append _ _)
  -- The links change no lifetime.
  have hmodify : ∀ (s : StartState) id (f : Descriptor → Descriptor),
      (∀ d, (f d).lifetime = d.lifetime) → P s →
      P { s with registry := s.registry.modifyDescriptor id f } := by
    intro s id f hf hs
    change _ <+: (s.registry.descriptors.modify id f).map Descriptor.lifetime
    rwa [map_modify_of_eq hf]
  refine andThen_invariant (P := P) (andThen_invariant (P := P) ?_ fun s hs => ?_) fun s hs => ?_
  · refine forEach_invariant (P := P) (fun s cd _ hs => ?_) (List.prefix_refl _)
    unfold mergeContribution
    split
    · exact happend s _ hs
    · split
      · split <;> exact hs
      · exact hs
  · refine forEach_invariant (P := P) (fun s pb _ hs => ?_) hs
    simp only [mergePendingSingleton]
    split_ifs
    · exact hs
    · exact happend s _ hs
  · refine andThen_invariant (P := P) (forEach_invariant (P := P) (fun s link _ hs => ?_) hs)
      fun s hs => forEach_invariant (P := P) (fun s link _ hs => ?_) hs
    · unfold linkFactory
      split
      · exact hs
      · exact hmodify s _ _ (fun _ => rfl) hs
    · unfold linkAlias
      split
      · exact hs
      · exact hmodify s _ _ (fun _ => rfl) hs

/-- A start keeps the lifetimes of the descriptors that there are. -/
theorem start_lifetimes (r : Registry) (ctx : Addr) :
    r.lifetimes <+: (r.start ctx).state.lifetimes := by
  rcases start_cases r ctx with ⟨-, heq⟩ | ⟨_, -, -, heq⟩ | ⟨-, -, heq⟩
  · rw [heq]
    exact List.prefix_refl r.lifetimes
  · rw [heq]
    exact List.prefix_refl r.lifetimes
  · rw [heq]
    have hmerged := mergeAndLink_lifetimes r
    cases hfail : (merge { registry := r } ctx).failure with
    | none =>
      rw [(merge_of_ok hfail).2.2.2]
      refine hmerged.trans ?_
      change _ <+: (numberSessions 0 (_ ++ [_])).map Descriptor.lifetime
      rw [map_numberSessions (fun _ _ => rfl), List.map_append]
      exact List.prefix_append _ _
    | some e =>
      rcases merge_of_fail hfail with hstate | hstate <;>
        · rw [hstate]
          exact hmerged

/-! ## Session bindings -/

/-- A session binding uses the descriptor of a bound session bean, and appends it if there is
    none of its key. -/
theorem sessionDescriptor_spec (r : Registry) (typeId : TypeId) (nameId : NameId) (priority : ℤ) :
    (∃ ds, (r.sessionDescriptor typeId nameId priority).2.descriptors = r.descriptors ++ ds) ∧
      (r.sessionDescriptor typeId nameId priority).2.started = r.started ∧
      ∃ d, (r.sessionDescriptor typeId nameId priority).2.descriptors[
          (r.sessionDescriptor typeId nameId priority).1]? = some d ∧
        d.lifetime = .session ∧ d.origin = .runtimeBinding := by
  unfold sessionDescriptor
  split
  · next id hid =>
    refine ⟨⟨[], (List.append_nil _).symm⟩, rfl, ?_⟩
    unfold reusableSession at hid
    split_ifs at hid
    have hfound := List.find?_some hid
    obtain ⟨d, hd, hmatch⟩ := (Option.any_eq_true _ _).mp hfound
    simp only [Bool.and_eq_true, beq_iff_eq] at hmatch
    exact ⟨d, hd, hmatch.1.2, hmatch.1.1⟩
  · simp only [appendSession]
    split_ifs
    · exact ⟨⟨_, rfl⟩, rfl, _, List.getElem?_concat_length, rfl, rfl⟩
    · exact ⟨⟨_, rfl⟩, rfl, _, List.getElem?_concat_length, rfl, rfl⟩

/-- A descriptor bound later takes the next slot. -/
theorem Numbered.sessionDescriptor (h : r.Numbered) (hbelow : r.SlotsBelow) (typeId : TypeId)
    (nameId : NameId) (priority : ℤ) : (r.sessionDescriptor typeId nameId priority).2.Numbered := by
  unfold Registry.sessionDescriptor
  split
  · exact h
  · simp only [appendSession]
    split_ifs with hstarted
    · refine h.append rfl rfl rfl (fun slot hslot => ⟨hstarted, rfl, fun d hd => ?_⟩)
        (by rintro _ _ ⟨⟩)
      obtain rfl : r.sessionSlotCount = slot := Option.some.inj hslot
      exact lt_irrefl _ (hbelow.lt_of_slotOf hd)
    · exact h.append rfl rfl rfl (by rintro _ ⟨⟩) fun hs => absurd hs hstarted

end Registry

namespace BeanContext

variable {b : BeanContext}

/-- What holds of session beans in every reachable context: their slots are distinct, and the
    pending bindings of a scope are of distinct session beans. -/
structure Numbered (b : BeanContext) : Prop where
  core : b.core.Numbered
  pending : ∀ scope, ∀ psb ∈ (b.scopes scope).pendingRuntimeSessions,
    b.core.lifetimes[psb.descId]? = some .session
  nodup : ∀ scope,
    ((b.scopes scope).pendingRuntimeSessions.map PendingRuntimeSession.descId).Nodup

theorem numbered_fresh (S : StdSort) (self : Addr) : Numbered (fresh S self) :=
  ⟨Registry.numbered_empty S, fun _ => nofun, fun _ => List.nodup_nil⟩

/-- The queued bindings stay sessions of a larger root. -/
theorem Numbered.withCore (h : b.Numbered) {core : Registry} (hcore : core.Numbered)
    (hlifetimes : b.core.lifetimes <+: core.lifetimes) : (b.withCore core).Numbered := by
  refine ⟨hcore, fun scope psb hpsb => ?_, h.nodup⟩
  obtain ⟨hlt, hget⟩ := List.getElem?_eq_some_iff.mp (h.pending scope psb hpsb)
  exact (List.prefix_iff_getElem?.mp hlifetimes _ hlt).trans (congrArg some hget)

/-- A change of one scope. -/
theorem Numbered.setScope (h : b.Numbered) (scope : ScopeId) {sc : ScopedContext}
    (hpending : ∀ psb ∈ sc.pendingRuntimeSessions, b.core.lifetimes[psb.descId]? = some .session)
    (hnodup : (sc.pendingRuntimeSessions.map PendingRuntimeSession.descId).Nodup) :
    (b.setScope scope sc).Numbered := by
  have hscopes : ∀ scope', (b.setScope scope sc).scopes scope' =
      if scope' = scope then sc else b.scopes scope' := fun scope' => by
    simp only [BeanContext.setScope, Function.update_apply]
  refine ⟨h.core, fun scope' => ?_, fun scope' => ?_⟩
  · rw [hscopes]
    split_ifs
    · exact hpending
    · exact h.pending scope'
  · rw [hscopes]
    split_ifs
    · exact hnodup
    · exact h.nodup scope'

/-- A change of one scope that keeps its pending bindings, or drops them. -/
theorem Numbered.setScope_of_eq (h : b.Numbered) (scope : ScopeId) {sc : ScopedContext}
    (hsc : sc.pendingRuntimeSessions = (b.scopes scope).pendingRuntimeSessions ∨
      sc.pendingRuntimeSessions = []) : (b.setScope scope sc).Numbered := by
  rcases hsc with hsc | hsc
  · exact h.setScope scope (hsc ▸ h.pending scope) (hsc ▸ h.nodup scope)
  · exact h.setScope scope (hsc ▸ nofun) (hsc ▸ List.nodup_nil)

theorem Numbered.bindSingleton (h : b.Numbered) (type : CppType) (name : String) (priority : ℤ)
    (object : Addr) : (b.bindSingleton type name priority object).state.Numbered := by
  have hsame : ∀ core : Registry, core.descriptors = b.core.descriptors →
      core.started = b.core.started → core.beanContextDescId = b.core.beanContextDescId →
      (b.withCore core).Numbered := by
    intro core hds hstarted hid
    refine h.withCore ⟨?_, ?_, ?_, ?_, ?_⟩ (by rw [Registry.lifetimes, Registry.lifetimes, hds])
    · simp only [Registry.sessionSlotOf, hds]
      exact h.core.distinct
    · rw [hds]
      exact h.core.slotted
    · rw [hstarted, hds]
      exact h.core.sessions
    · rw [hstarted, hds]
      exact h.core.unnumbered
    · rw [hstarted, hid]
      exact h.core.unmerged
  simp only [BeanContext.bindSingleton, Registry.bindSingleton]
  split_ifs
  · exact hsame _ rfl rfl rfl
  · simp only [Registry.bindSingletonStarted]
    split_ifs
    · exact hsame _ rfl rfl rfl
    · exact h.withCore (h.core.append rfl rfl rfl (by rintro _ ⟨⟩) (by rintro _ ⟨⟩))
        (Registry.lifetimes_prefix_of_append rfl)
  · unfold Registry.bindSingletonPending
    split_ifs <;> exact hsame _ rfl rfl rfl

theorem Numbered.placeSession (h : b.Numbered) (scope : ScopeId) {descId : DescriptorId}
    (hid : b.core.lifetimes[descId]? = some .session) (object : Addr) :
    (b.placeSession scope descId object).state.Numbered := by
  simp only [BeanContext.placeSession]
  split_ifs with hpending hrunning hfound
  · exact h
  · refine h.setScope scope (fun psb hpsb => ?_) ?_
    · rcases List.mem_append.mp hpsb with hpsb | hpsb
      · exact h.pending scope psb hpsb
      · rw [List.mem_singleton.mp hpsb]
        exact hid
    · rw [List.map_append, List.nodup_append]
      refine ⟨h.nodup scope, List.nodup_singleton _, fun d hd d' hd' heq => hpending ?_⟩
      obtain ⟨psb, hpsb, rfl⟩ := List.mem_map.mp hd
      rw [List.mem_singleton.mp hd'] at heq
      exact List.any_eq_true.mpr ⟨psb, hpsb, by simpa using heq⟩
  · exact h
  · exact h.setScope_of_eq scope (.inl rfl)

/-- Of all the calls this one adds to the slots and to the queued bindings. -/
theorem Numbered.bindSession (h : b.Numbered) (hbelow : b.core.SlotsBelow) (scope : ScopeId)
    (type : CppType) (name : String) (priority : ℤ) (object : Addr) :
    (b.bindSession scope type name priority object).state.Numbered := by
  have hintern : (b.withCore (b.core.internSession type name)).Numbered :=
    h.withCore ⟨h.core.1, h.core.2, h.core.3, h.core.4, h.core.5⟩ (List.prefix_refl _)
  simp only [BeanContext.bindSession]
  split_ifs
  · exact h
  · exact hintern
  · obtain ⟨⟨ds, hds⟩, -, d, hd, hlifetime, -⟩ := (b.core.internSession type
      name).sessionDescriptor_spec (b.core.sessionType type).1 (b.core.nameInterning.intern name).1
      priority
    refine (hintern.withCore (hintern.core.sessionDescriptor hbelow _ _ _) ?_).placeSession scope
      ?_ object
    · exact Registry.lifetimes_prefix_of_append hds
    · exact (List.getElem?_map ..).trans (hd ▸ congrArg some hlifetime)

/-- Every call keeps the numbering in order. -/
theorem Numbered.exec (h : b.Numbered) (hbelow : b.core.SlotsBelow) (call : Call) :
    (b.exec call).state.Numbered := by
  -- Starting and stopping a scope keeps what waits for it, or empties it.
  have hstart : ∀ {b : BeanContext}, b.Numbered → ∀ scope, (b.startScope scope).state.Numbered := by
    intro b h scope
    simp only [BeanContext.startScope]
    split_ifs
    · exact h
    · split
      · exact h
      · exact h
      · exact h.setScope_of_eq scope (.inr rfl)
  have hstop : ∀ scope deferDeallocation, (b.runScopeStop scope deferDeallocation).Numbered := by
    intro scope deferDeallocation
    refine h.setScope_of_eq scope (.inl ?_)
    refine List.foldlRecOn (motive := fun sc : ScopedContext =>
      sc.pendingRuntimeSessions = (b.scopes scope).pendingRuntimeSessions) _ _ rfl
      fun sc hsc id _ => ?_
    unfold ScopedContext.destroyInstance
    split
    · exact hsc
    · split_ifs <;> exact hsc
  cases call with
  | discover cds =>
    simp only [BeanContext.exec, BeanContext.discover, Registry.submitContribution]
    split_ifs
    · exact h
    · exact h.withCore ⟨h.core.1, h.core.2, h.core.3, h.core.4, h.core.5⟩ (List.prefix_refl _)
  | bindSingleton type name priority object => exact h.bindSingleton _ _ _ _
  | bindSession scope type name priority object => exact h.bindSession hbelow _ _ _ _ _
  | defaultNamed scope type name =>
    have hcore : ∀ core : Registry, core = (b.core.withNames (b.core.nameInterning.intern name).2) →
        (b.withCore core).Numbered := by
      rintro core rfl
      exact h.withCore ⟨h.core.1, h.core.2, h.core.3, h.core.4, h.core.5⟩ (List.prefix_refl _)
    simp only [BeanContext.exec, BeanContext.defaultNamed]
    split_ifs
    · exact h
    · exact h
    · split
      · exact h
      · split
        · exact (hcore _ rfl).withCore ⟨h.core.1, h.core.2, h.core.3, h.core.4, h.core.5⟩
            (List.prefix_refl _)
        · next sc => exact (hcore _ rfl).setScope_of_eq sc (.inl rfl)
  | clearDefaultNamed scope type =>
    simp only [BeanContext.exec, BeanContext.clearDefaultNamed]
    split_ifs
    · exact h
    · split
      · exact h
      · split
        · exact h.withCore ⟨h.core.1, h.core.2, h.core.3, h.core.4, h.core.5⟩ (List.prefix_refl _)
        · next sc =>
          split_ifs
          · exact h
          · exact h.setScope_of_eq sc (.inl rfl)
  | start => exact h.withCore (h.core.start b.self) (Registry.start_lifetimes b.core b.self)
  | startScope scope => exact hstart h scope
  | stopScope scope =>
    simp only [BeanContext.exec, BeanContext.stopScope]
    split_ifs
    · exact hstop scope false
    · exact h
  | restartScope scope =>
    simp only [BeanContext.exec, BeanContext.restartScope, BeanContext.stopScope]
    refine hstart ?_ scope
    split_ifs
    · exact hstop scope true
    · exact h

/-- The session beans of reachable contexts are numbered. -/
theorem Reachable.numbered (h : b.Reachable) : b.Numbered := by
  obtain ⟨S, self, calls, rfl⟩ := h
  refine (execAll_invariant (P := fun b => b.core.Indexed ∧ b.Slotted ∧ b.Numbered)
    (fun b call hb => ⟨exec_indexed hb.1 call, hb.2.1.exec hb.1 call,
      hb.2.2.exec hb.2.1.below call⟩)
    ⟨Registry.indexed_empty S, slotted_fresh S self, numbered_fresh S self⟩ calls).2.2

end BeanContext

end Ctorium
