import Ctorium.Registry.Selection

/-!
# Reachable contexts

A context is *reachable* if it results from calls on a fresh one, whether these have
failed or not. Every reachable context is `Sound`: its tables are in step, its "any
default" flags tell the truth when they are off, no instance of the context type is
pending, and only a registry that has registered its context bean is started.

A start that fails changes the tables and the list of pending singletons only
(`Registry.Frame`).
-/

namespace Ctorium

open Attempt

namespace Registry

/-- The registries agree on all that the merge does not work on. -/
structure Frame (r r' : Registry) : Prop where
  defaults : r'.defaults = r.defaults
  hasAnyDefault : r'.hasAnyDefault = r.hasAnyDefault
  singletons : r'.singletons = r.singletons
  sessionSlotCount : r'.sessionSlotCount = r.sessionSlotCount
  pending : r'.pending = r.pending
  startLifecyclePending : r'.startLifecyclePending = r.startLifecyclePending
  beanContextDescId : r'.beanContextDescId = r.beanContextDescId
  started : r'.started = r.started

variable {r r' : Registry} {s : StartState}

theorem Frame.refl (r : Registry) : Frame r r := ⟨rfl, rfl, rfl, rfl, rfl, rfl, rfl, rfl⟩

/-- A contribution touches the tables and the index only. -/
theorem Frame.mergeContribution (h : Frame r s.registry) (cd : ContributedDescriptor) :
    Frame r (mergeContribution s cd).state.registry := by
  unfold Registry.mergeContribution
  split
  · exact ⟨h.1, h.2, h.3, h.4, h.5, h.6, h.7, h.8⟩
  · split
    · split <;> exact h
    · exact h

theorem Frame.mergePendingSingleton (h : Frame r s.registry) (pb : PendingRuntimeSingleton) :
    Frame r (mergePendingSingleton s pb).state.registry := by
  simp only [Registry.mergePendingSingleton]
  split_ifs <;> exact ⟨h.1, h.2, h.3, h.4, h.5, h.6, h.7, h.8⟩

theorem Frame.linkFactory (h : Frame r s.registry) (link : DescriptorId × Identity) :
    Frame r (linkFactory s link).state.registry := by
  unfold Registry.linkFactory
  split <;> exact ⟨h.1, h.2, h.3, h.4, h.5, h.6, h.7, h.8⟩

theorem Frame.linkAlias (h : Frame r s.registry) (link : DescriptorId × Identity) :
    Frame r (linkAlias s link).state.registry := by
  unfold Registry.linkAlias
  split <;> exact ⟨h.1, h.2, h.3, h.4, h.5, h.6, h.7, h.8⟩

theorem Frame.mergeAll (h : Frame r s.registry) : Frame r (mergeAll s).state.registry := by
  let P := fun s : StartState => Frame r s.registry
  refine andThen_invariant (P := P)
    (forEach_invariant (P := P) (fun s cd _ hs => hs.mergeContribution cd) h) fun s hs => ?_
  exact forEach_invariant (P := P) (fun s pb _ hs => hs.mergePendingSingleton pb) hs

theorem Frame.linkAll (h : Frame r s.registry) : Frame r (linkAll s).state.registry := by
  let P := fun s : StartState => Frame r s.registry
  have hclear : Frame r (clearPendingSingletons s).registry :=
    ⟨h.1, h.2, h.3, h.4, h.5, h.6, h.7, h.8⟩
  refine andThen_invariant (P := P)
    (forEach_invariant (P := P) (fun s link _ hs => hs.linkFactory link) hclear) fun s hs => ?_
  exact forEach_invariant (P := P) (fun s link _ hs => hs.linkAlias link) hs

/-- So do the first two phases of start(). -/
theorem Frame.mergeAndLink (h : Frame r s.registry) : Frame r (mergeAndLink s).state.registry :=
  andThen_invariant (P := fun s : StartState => Frame r s.registry) h.mergeAll
    fun _ hs => hs.linkAll

/-! ## The pending singletons -/

theorem forEach_mergeContribution_pendingRuntimeSingletons (cds : List ContributedDescriptor)
    (s : StartState) :
    (forEach Registry.mergeContribution cds s).state.registry.pendingRuntimeSingletons =
      s.registry.pendingRuntimeSingletons := by
  refine forEach_invariant (P := fun s' : StartState =>
    s'.registry.pendingRuntimeSingletons = s.registry.pendingRuntimeSingletons) ?_ rfl
  intro s' cd _ hs'
  unfold Registry.mergeContribution
  split
  · exact hs'
  · split
    · split <;> exact hs'
    · exact hs'

/-- The queue of bindings is read in phase 1.5 and not changed. -/
theorem mergeAll_pendingRuntimeSingletons (s : StartState) :
    (mergeAll s).state.registry.pendingRuntimeSingletons =
      s.registry.pendingRuntimeSingletons := by
  let P := fun s' : StartState =>
    s'.registry.pendingRuntimeSingletons = s.registry.pendingRuntimeSingletons
  have hsingleton : ∀ s' pb, P s' → P (Registry.mergePendingSingleton s' pb).state := by
    intro s' pb hs'
    simp only [Registry.mergePendingSingleton]
    split_ifs <;> exact hs'
  refine andThen_invariant (P := P)
    (forEach_mergeContribution_pendingRuntimeSingletons _ s) fun s' hs' => ?_
  exact forEach_invariant (P := P) (fun s pb _ hs => hsingleton s pb hs) hs'

/-- The links come after the pending singletons have been dropped. -/
theorem linkAll_pendingRuntimeSingletons (s : StartState) :
    (linkAll s).state.registry.pendingRuntimeSingletons = [] := by
  let P := fun s' : StartState => s'.registry.pendingRuntimeSingletons = []
  have hfactory : ∀ s' link, P s' → P (Registry.linkFactory s' link).state := by
    intro s' link hs'
    unfold Registry.linkFactory
    split <;> exact hs'
  have halias : ∀ s' link, P s' → P (Registry.linkAlias s' link).state := by
    intro s' link hs'
    unfold Registry.linkAlias
    split <;> exact hs'
  refine andThen_invariant (P := P)
    (forEach_invariant (P := P) (fun s link _ hs => hfactory s link hs) rfl) fun s hs => ?_
  exact forEach_invariant (P := P) (fun s link _ hs => halias s link hs) hs

/-- Phases 1 and 1.5 keep the pending singletons if they fail; after them, they are gone. -/
theorem mergeAndLink_pendingRuntimeSingletons (s : StartState) :
    (mergeAndLink s).state.registry.pendingRuntimeSingletons =
      if (mergeAll s).failure = none then [] else s.registry.pendingRuntimeSingletons := by
  unfold mergeAndLink
  cases hmerge : (mergeAll s).failure with
  | none => rw [andThen_of_ok hmerge, if_pos rfl, linkAll_pendingRuntimeSingletons]
  | some e => rw [andThen_of_fail hmerge, if_neg nofun, mergeAll_pendingRuntimeSingletons]

/-- A merge that succeeds has passed all checks, and ends with phase 4. -/
theorem merge_of_ok {ctx : Addr} (hok : (merge s ctx).failure = none) :
    (mergeAndLink s).failure = none ∧
      (sortState (mergeAndLink s).state).registry.validateProducers = none ∧
      (sortState (mergeAndLink s).state).registry.validateScoped = none ∧
      (merge s ctx).state = finishStart (sortState (mergeAndLink s).state) ctx := by
  obtain ⟨hlink, hrest⟩ := andThen_failure_eq_none.mp hok
  obtain ⟨hproducers, hrest⟩ := andThen_failure_eq_none.mp hrest
  obtain ⟨hscoped, -⟩ := andThen_failure_eq_none.mp hrest
  refine ⟨hlink, hproducers, hscoped, ?_⟩
  unfold merge
  rw [andThen_of_ok hlink, andThen_of_ok hproducers, andThen_of_ok hscoped]
  rfl

/-- A merge that fails stops after phase 2.5, or after the sort. -/
theorem merge_of_fail {ctx : Addr} {e : Failure} (hfail : (merge s ctx).failure = some e) :
    (merge s ctx).state = (mergeAndLink s).state ∨
      (merge s ctx).state = sortState (mergeAndLink s).state := by
  unfold merge at hfail ⊢
  cases hlink : (mergeAndLink s).failure with
  | some e' =>
    rw [andThen_of_fail hlink]
    exact .inl rfl
  | none =>
    rw [andThen_of_ok hlink] at hfail ⊢
    right
    cases hproducers : (sortState (mergeAndLink s).state).registry.validateProducers with
    | some e' => rfl
    | none =>
      cases hscoped : (sortState (mergeAndLink s).state).registry.validateScoped with
      | some e' => simp [andThen, check, hscoped]
      | none => simp [andThen, check, hproducers, hscoped, ok] at hfail

/-- A start() that fails has written nothing but tables, descriptors and index. -/
theorem Frame.merge_of_fail {ctx : Addr} {e : Failure} (h : Frame r s.registry)
    (hfail : (merge s ctx).failure = some e) : Frame r (merge s ctx).state.registry := by
  have hlink := h.mergeAndLink
  rcases Registry.merge_of_fail hfail with heq | heq
  · rw [heq]
    exact hlink
  · rw [heq]
    exact ⟨hlink.1, hlink.2, hlink.3, hlink.4, hlink.5, hlink.6, hlink.7, hlink.8⟩

/-- The outcomes of a start: it has been done already, the prepared state is published
    again, or the merge takes place. -/
theorem start_cases (r : Registry) (ctx : Addr) :
    (r.started = true ∧ r.start ctx = .ok r) ∨
      (∃ descId, r.started = false ∧ r.beanContextDescId = some descId ∧
        r.start ctx = .ok (r.restart ctx descId)) ∨
      (r.started = false ∧ r.beanContextDescId = none ∧
        r.start ctx = ⟨(merge { registry := r } ctx).state.registry,
          (merge { registry := r } ctx).failure⟩) := by
  unfold start
  cases hstarted : r.started with
  | true => exact .inl ⟨rfl, by simp⟩
  | false =>
    cases hid : r.beanContextDescId with
    | some descId => exact .inr (.inl ⟨descId, rfl, rfl, by simp⟩)
    | none => exact .inr (.inr ⟨rfl, rfl, by simp⟩)

end Registry

namespace BeanContext

/-- What holds of every reachable context. -/
structure Sound (b : BeanContext) : Prop where
  indexed : b.core.Indexed
  flagged : b.DefaultsFlagged
  pending : ∀ pb ∈ b.core.pendingRuntimeSingletons, pb.type.name ≠ Registry.beanContextType.name
  begun : b.core.started = true → b.core.beanContextDescId ≠ none

variable {b : BeanContext}

/-- A context is reachable if calls on a fresh one lead to it. -/
def Reachable (b : BeanContext) : Prop := ∃ S self calls, b = (fresh S self).execAll calls

theorem sound_fresh (S : StdSort) (self : Addr) : Sound (fresh S self) where
  indexed := Registry.indexed_empty S
  flagged := ⟨fun _ _ => by simp [DefaultsTable.getDefault], fun _ _ _ => by
    simp [DefaultsTable.getDefault]⟩
  pending := nofun
  begun := nofun

/-- start() does not touch the defaults. -/
theorem DefaultsFlagged.start (h : b.DefaultsFlagged) : b.start.state.DefaultsFlagged := by
  refine ⟨?_, h.scope⟩
  change (b.core.start b.self).state.hasAnyDefault = false →
    ∀ typeId, (b.core.start b.self).state.defaults.getDefault typeId = kUnnamed
  rcases Registry.start_cases b.core b.self with ⟨-, heq⟩ | ⟨_, -, -, heq⟩ | ⟨-, -, heq⟩
  · rw [heq]
    exact h.root
  · rw [heq]
    exact h.root
  · rw [heq]
    cases hfail : (Registry.merge { registry := b.core } b.self).failure with
    | none =>
      -- The start that succeeds has a fresh table of defaults.
      intro _ typeId
      rw [(Registry.merge_of_ok hfail).2.2.2]
      exact ite_self _
    | some e =>
      have hframe := (Registry.Frame.refl b.core).merge_of_fail hfail
      rw [hframe.hasAnyDefault, hframe.defaults]
      exact h.root

/-- A start() that succeeds, fails, or begins again leaves a sound context. -/
theorem Sound.start (h : b.Sound) : b.start.state.Sound := by
  refine ⟨h.indexed.start b.self, h.flagged.start, ?_, ?_⟩
  · change ∀ pb ∈ (b.core.start b.self).state.pendingRuntimeSingletons, _
    -- The start does nothing, is a second one, or merges.
    rcases Registry.start_cases b.core b.self with ⟨-, heq⟩ | ⟨_, -, -, heq⟩ | ⟨-, -, heq⟩
    · rw [heq]
      exact h.pending
    · rw [heq]
      exact h.pending
    · have hlink := Registry.mergeAndLink_pendingRuntimeSingletons { registry := b.core }
      have hpending : ∀ pb ∈ (Registry.mergeAndLink
          { registry := b.core }).state.registry.pendingRuntimeSingletons,
          pb.type.name ≠ Registry.beanContextType.name := by
        rw [hlink]
        split_ifs
        · exact nofun
        · exact h.pending
      rw [heq]
      cases hfail : (Registry.merge { registry := b.core } b.self).failure with
      | none =>
        rw [(Registry.merge_of_ok hfail).2.2.2]
        exact hpending
      | some e =>
        rcases Registry.merge_of_fail hfail with hstate | hstate <;> rw [hstate] <;> exact hpending
  · change (b.core.start b.self).state.started = true →
      (b.core.start b.self).state.beanContextDescId ≠ none
    -- Only a merge that succeeds sets the flag and the context bean.
    rcases Registry.start_cases b.core b.self with ⟨-, heq⟩ | ⟨_, -, hid, heq⟩ | ⟨hnot, -, heq⟩
    · rw [heq]
      exact h.begun
    · rw [heq]
      intro _
      simp [Registry.restart, hid]
    · rw [heq]
      cases hfail : (Registry.merge { registry := b.core } b.self).failure with
      | none =>
        intro _
        rw [(Registry.merge_of_ok hfail).2.2.2]
        exact Option.some_ne_none _
      | some e =>
        have hframe := (Registry.Frame.refl b.core).merge_of_fail hfail
        rw [hframe.started, hnot]
        exact nofun

theorem Sound.bindSingleton (h : b.Sound) (type : CppType) (name : String) (priority : ℤ)
    (object : Addr) : (b.bindSingleton type name priority object).state.Sound := by
  have hindexed := exec_indexed h.indexed (.bindSingleton type name priority object)
  simp only [exec] at hindexed
  -- The three facts, each before and after the start.
  refine ⟨hindexed, ?_, ?_, ?_⟩ <;>
    simp only [BeanContext.bindSingleton, Registry.bindSingleton] <;>
    split_ifs with hname hstarted
  · exact h.flagged.withCore rfl rfl
  · simp only [Registry.bindSingletonStarted]
    split_ifs <;> exact h.flagged.withCore rfl rfl
  · unfold Registry.bindSingletonPending
    split_ifs <;> exact h.flagged.withCore rfl rfl
  · exact h.pending
  · simp only [Registry.bindSingletonStarted]
    split_ifs <;> exact h.pending
  · unfold Registry.bindSingletonPending
    split_ifs
    · exact h.pending
    · intro pb hpb
      rcases List.mem_append.mp hpb with hpb | hpb
      · exact h.pending pb hpb
      · rw [List.mem_singleton.mp hpb]
        exact hname
  · exact h.begun
  · simp only [Registry.bindSingletonStarted]
    split_ifs <;> exact h.begun
  · unfold Registry.bindSingletonPending
    split_ifs <;> exact h.begun

theorem DefaultsFlagged.placeSession (h : b.DefaultsFlagged) (scope : ScopeId) (id : DescriptorId)
    (object : Addr) : (b.placeSession scope id object).state.DefaultsFlagged := by
  simp only [BeanContext.placeSession]
  split_ifs
  · exact h
  · exact h.setScope (h.scope scope)
  · exact h
  · exact h.setScope (h.scope scope)

/-- A session descriptor changes the tables and the slot count only. -/
theorem sessionDescriptor_frame (r : Registry) (typeId : TypeId) (nameId : NameId) (priority : ℤ) :
    (r.sessionDescriptor typeId nameId priority).2.hasAnyDefault = r.hasAnyDefault ∧
      (r.sessionDescriptor typeId nameId priority).2.defaults = r.defaults ∧
      (r.sessionDescriptor typeId nameId priority).2.pendingRuntimeSingletons =
        r.pendingRuntimeSingletons ∧
      (r.sessionDescriptor typeId nameId priority).2.started = r.started ∧
      (r.sessionDescriptor typeId nameId priority).2.beanContextDescId = r.beanContextDescId := by
  unfold Registry.sessionDescriptor
  split
  · exact ⟨rfl, rfl, rfl, rfl, rfl⟩
  · simp only [Registry.appendSession]
    split_ifs <;> exact ⟨rfl, rfl, rfl, rfl, rfl⟩

/-- A session binding grows the root before the scope refuses it. -/
theorem Sound.bindSession (h : b.Sound) (scope : ScopeId) (type : CppType) (name : String)
    (priority : ℤ) (object : Addr) :
    (b.bindSession scope type name priority object).state.Sound := by
  have hindexed := bindSession_indexed h.indexed scope type name priority object
  simp only [BeanContext.bindSession] at hindexed ⊢
  split_ifs at hindexed ⊢
  · exact h
  · exact ⟨hindexed, h.flagged.withCore rfl rfl, h.pending, h.begun⟩
  · obtain ⟨hflag, hdefaults, hpending, hstarted, hid⟩ := sessionDescriptor_frame
      (b.core.internSession type name) (b.core.sessionType type).1
      (b.core.nameInterning.intern name).1 priority
    refine ⟨hindexed, DefaultsFlagged.placeSession ?_ _ _ _, ?_, ?_⟩
    · exact h.flagged.withCore hflag hdefaults
    · rw [placeSession_core]
      exact fun pb hpb => h.pending pb (hpending ▸ hpb)
    · rw [placeSession_core]
      exact fun hs => hid ▸ h.begun (hstarted ▸ hs)

theorem Sound.defaultNamed (h : b.Sound) (scope : Option ScopeId) (type : CppType)
    (name : String) : (b.defaultNamed scope type name).state.Sound := by
  have hindexed := h.indexed.internName name
  have hflagged : (b.withCore (b.core.withNames
      (b.core.nameInterning.intern name).2)).DefaultsFlagged := h.flagged.withCore rfl rfl
  simp only [BeanContext.defaultNamed]
  split_ifs
  · exact h
  · exact h
  · split
    · exact h
    · split
      · exact ⟨hindexed, hflagged.setDefault _ _, h.pending, h.begun⟩
      · exact ⟨hindexed, hflagged.setScope (by rintro ⟨⟩), h.pending, h.begun⟩

theorem Sound.clearDefaultNamed (h : b.Sound) (scope : Option ScopeId) (type : CppType) :
    (b.clearDefaultNamed scope type).state.Sound := by
  simp only [BeanContext.clearDefaultNamed]
  split_ifs
  · exact h
  · split
    · exact h
    · split
      · exact ⟨h.indexed, h.flagged.setDefault _ _, h.pending, h.begun⟩
      · next s =>
        split_ifs
        · exact h
        · refine ⟨h.indexed, h.flagged.setScope fun hoff typeId => ?_, h.pending, h.begun⟩
          exact setDefault_getDefault _ _ _ _ (h.flagged.scope s hoff typeId) rfl

theorem Sound.of_sameDefaults {b' : BeanContext} (h : b.Sound) (hcore : b'.core = b.core)
    (hsame : SameDefaults b b') : b'.Sound :=
  ⟨hcore ▸ h.indexed, h.flagged.of_sameDefaults hcore hsame, hcore ▸ h.pending, hcore ▸ h.begun⟩

/-- Every call keeps a context sound. -/
theorem Sound.exec (h : b.Sound) (call : Call) : (b.exec call).state.Sound := by
  cases call with
  | discover cds =>
    simp only [BeanContext.exec, BeanContext.discover, Registry.submitContribution]
    split_ifs
    · exact h
    · exact ⟨h.indexed, h.flagged.withCore rfl rfl, h.pending, h.begun⟩
  | bindSingleton type name priority object => exact h.bindSingleton _ _ _ _
  | bindSession scope type name priority object => exact h.bindSession _ _ _ _ _
  | defaultNamed scope type name => exact h.defaultNamed _ _ _
  | clearDefaultNamed scope type => exact h.clearDefaultNamed _ _
  | start => exact h.start
  | startScope scope =>
    exact h.of_sameDefaults (startScope_core scope) (startScope_sameDefaults b scope)
  | stopScope scope =>
    exact h.of_sameDefaults (stopScope_core scope) (stopScope_sameDefaults b scope)
  | restartScope scope =>
    exact h.of_sameDefaults (restartScope_core scope) (restartScope_sameDefaults b scope)

/-- Reachable contexts are sound. -/
theorem Reachable.sound (h : b.Reachable) : b.Sound := by
  obtain ⟨S, self, calls, rfl⟩ := h
  exact execAll_invariant (P := Sound) (fun _ call hb => hb.exec call) (sound_fresh S self) calls

end BeanContext

end Ctorium
