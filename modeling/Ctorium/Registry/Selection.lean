import Ctorium.Registry.Index

/-!
# Selection against the reference rule

The reference rule for a resolution: its effective name is the explicit name, or else
the default of the scope, or else the default of the root, or else the empty name; and
it selects the unique descriptor of highest priority among all descriptors of the type
and this name (`BeanContext.FollowsReference`).

Every call on a started context that inserts a candidate sorts all candidates again, so
the rule is preserved by all calls (`Settled.exec`). Only the start itself inserts a
candidate after it has sorted: the context bean. Whether the rule holds after the start
thus depends on the other unnamed candidates of the context type
(`follows_reference_iff`).
-/

namespace Ctorium

open UniqueMax Attempt

/-- The default name of a type, if one is set. -/
def DefaultsTable.default? (dt : DefaultsTable) (typeId : TypeId) : Option NameId :=
  if dt.getDefault typeId = kUnnamed then none else some (dt.getDefault typeId)

namespace BeanContext

/-! ## The reference rule -/

/-- The effective name of the reference rule. -/
def referenceName (b : BeanContext) (scope : Option ScopeId) (typeId : TypeId)
    (nameId : NameId) : NameId :=
  if nameId ≠ kUnnamed then nameId
  else ((scope.bind fun s => (b.scopes s).scopedDefaults.default? typeId).or
    (b.core.defaults.default? typeId)).getD kUnnamed

/-- The descriptors among which a resolution selects. -/
def referenceCandidates (b : BeanContext) (scope : Option ScopeId) (typeId : TypeId)
    (nameId : NameId) : List DescriptorId :=
  keyIds b.core.descriptors typeId (b.referenceName scope typeId nameId)

/-- Resolution selects by the reference rule, for every type, name and resolving context,
    and so does each cache of the index on its own. -/
structure FollowsReference (b : BeanContext) : Prop where
  selected : ∀ scope typeId nameId id, b.select scope typeId nameId = .ok id ↔
    IsUniqueMax b.core.priorityOf (b.referenceCandidates scope typeId nameId) id
  rejected : ∀ scope typeId nameId,
    (∃ text, b.select scope typeId nameId = .error (.resolutionError text)) ↔
      b.referenceCandidates scope typeId nameId = [] ∨
        Contested b.core.priorityOf (b.referenceCandidates scope typeId nameId)
  caches : ∀ typeId nameId, b.core.typeIndex.Agrees b.core.priorityOf typeId nameId
    (keyIds b.core.descriptors typeId nameId)

/-! ## Selection from agreeing caches -/

variable {priorityOf : DescriptorId → ℤ} {r : Registry} {b : BeanContext} {typeId : TypeId}
  {nameId : NameId} {l : List DescriptorId} {id : DescriptorId}

theorem selectFallback_eq (candidates : List DescriptorId) :
    selectFallback priorityOf candidates = match first priorityOf candidates with
      | some id => .ok id
      | none => .error (if candidates = [] then noBean else ambiguousResolution) := by
  rcases candidates with _ | ⟨a, _ | ⟨b, rest⟩⟩
  · rfl
  · rfl
  · simp only [selectFallback, first]
    split_ifs <;> simp_all

/-- The outcomes of a selection from caches that agree with the list. -/
theorem selectKey_cases (h : r.typeIndex.Agrees r.priorityOf typeId nameId l) :
    (∃ id, selectKey r typeId nameId = .ok id ∧ IsUniqueMax r.priorityOf l id) ∨
      (∃ text, selectKey r typeId nameId = .error (.resolutionError text)) ∧
        (l = [] ∨ Contested r.priorityOf l) := by
  unfold selectKey
  -- By the way that the index answers.
  split
  · next id hid =>
    split_ifs at hid with hname
    exact .inl ⟨id, rfl, h.single hname id hid⟩
  · cases hentry : r.typeIndex.entries typeId nameId with
    | none =>
      refine .inr ⟨⟨_, rfl⟩, h.unchosen ?_⟩
      simp [TypeIndex.candidatesFor, hentry, first]
    | some entry =>
      have hcandidates : (r.typeIndex.candidatesFor typeId nameId).getD [] = entry.candidates := by
        simp [TypeIndex.candidatesFor, hentry]
      cases hhead : entry.head with
      | none =>
        simp only [selectEntry, hhead, selectFallback_eq]
        cases hfirst : first r.priorityOf entry.candidates with
        | some id => exact .inl ⟨id, rfl, h.chosen id (hcandidates ▸ hfirst)⟩
        | none =>
          refine .inr ⟨?_, h.unchosen (hcandidates ▸ hfirst)⟩
          split_ifs
          · exact ⟨_, rfl⟩
          · exact ⟨_, rfl⟩
      | some head =>
        have hcached := h.cached entry head hentry hhead
        simp only [selectEntry, hhead]
        split_ifs at hcached ⊢
        · exact .inr ⟨⟨_, rfl⟩, .inr hcached⟩
        · exact .inl ⟨head, rfl, hcached⟩

/-- An error of the selection excludes a result. -/
theorem not_isUniqueMax_of_empty_or_contested (h : l = [] ∨ Contested priorityOf l) :
    ¬IsUniqueMax priorityOf l id := by
  rcases h with rfl | h
  · exact fun hmax => absurd hmax.1 List.not_mem_nil
  · exact h.not_isUniqueMax

theorem selectKey_eq_ok_iff (h : r.typeIndex.Agrees r.priorityOf typeId nameId l) :
    selectKey r typeId nameId = .ok id ↔ IsUniqueMax r.priorityOf l id := by
  rcases selectKey_cases h with ⟨id', heq, hmax⟩ | ⟨⟨text, heq⟩, hnone⟩
  · rw [heq, Except.ok.injEq]
    exact ⟨fun hid => hid ▸ hmax, fun hid => hmax.eq hid⟩
  · rw [heq]
    exact ⟨nofun, fun hid => absurd hid (not_isUniqueMax_of_empty_or_contested hnone)⟩

theorem selectKey_eq_error_iff (h : r.typeIndex.Agrees r.priorityOf typeId nameId l) :
    (∃ text, selectKey r typeId nameId = .error (.resolutionError text)) ↔
      l = [] ∨ Contested r.priorityOf l := by
  rcases selectKey_cases h with ⟨id', heq, hmax⟩ | ⟨herror, hnone⟩
  · rw [heq]
    refine ⟨nofun, fun hnone => ?_⟩
    exact absurd hmax (not_isUniqueMax_of_empty_or_contested hnone)
  · exact ⟨fun _ => hnone, fun _ => herror⟩

/-! ## Default names -/

/-- The "any default" flags tell the truth when they are off. -/
structure DefaultsFlagged (b : BeanContext) : Prop where
  root : b.core.hasAnyDefault = false → ∀ typeId, b.core.defaults.getDefault typeId = kUnnamed
  scope : ∀ s, (b.scopes s).hasAnyScopedDefault = false →
    ∀ typeId, (b.scopes s).scopedDefaults.getDefault typeId = kUnnamed

theorem effectiveName_eq (h : b.DefaultsFlagged) (scope : Option ScopeId) (typeId : TypeId)
    (nameId : NameId) :
    b.effectiveName scope typeId nameId = b.referenceName scope typeId nameId := by
  unfold effectiveName referenceName
  by_cases hname : nameId = kUnnamed
  · have hroot : (b.core.defaults.default? typeId).getD kUnnamed =
        if b.core.hasAnyDefault then b.core.defaults.getDefault typeId else kUnnamed := by
      have hflag := fun hoff => h.root hoff typeId
      unfold DefaultsTable.default?
      split_ifs <;> simp_all
    cases scope with
    | none =>
      simp only [hname, if_true, true_and, ne_eq, not_true_eq_false, if_false, Option.bind_none,
        Option.none_or, hroot]
    | some s =>
      have hflag := fun hoff => h.scope s hoff typeId
      simp only [hname, if_true, ne_eq, not_true_eq_false, if_false, Option.bind_some]
      by_cases hset : (b.scopes s).scopedDefaults.getDefault typeId = kUnnamed
      · simp [DefaultsTable.default?, hset, ← hroot]
      · have hon : (b.scopes s).hasAnyScopedDefault = true := by
          by_contra hoff
          exact hset (hflag (by simpa using hoff))
        simp [DefaultsTable.default?, hset, hon]
  · simp [hname]

/-! ## Settled contexts -/

/-- All caches of a started context agree with its descriptors. -/
structure Settled (b : BeanContext) : Prop where
  started : b.core.started = true
  indexed : b.core.Indexed
  agrees : ∀ typeId nameId, b.core.typeIndex.Agrees b.core.priorityOf typeId nameId
    (keyIds b.core.descriptors typeId nameId)
  flagged : b.DefaultsFlagged

/-- On a settled context a lookup is a selection under the reference name. -/
theorem Settled.select_eq (h : b.Settled) (scope : Option ScopeId) (typeId : TypeId)
    (nameId : NameId) : b.select scope typeId nameId =
      selectKey b.core typeId (b.referenceName scope typeId nameId) := by
  rw [select, h.started, effectiveName_eq h.flagged]
  rfl

/-- A settled context selects by the reference rule. -/
theorem Settled.followsReference (h : b.Settled) : b.FollowsReference where
  selected scope typeId nameId id := by
    rw [h.select_eq]
    exact selectKey_eq_ok_iff (h.agrees _ _)
  rejected scope typeId nameId := by
    simp only [h.select_eq]
    exact selectKey_eq_error_iff (h.agrees _ _)
  caches := h.agrees

/-- Sorting brings all caches into agreement with the descriptors. -/
theorem sortAllCandidates_agrees (h : r.Indexed) (typeId : TypeId) (nameId : NameId) :
    r.sortAllCandidates.typeIndex.Agrees r.priorityOf typeId nameId
      (keyIds r.descriptors typeId nameId) :=
  (TypeIndex.sortAllCandidates_agrees ((h.inserted typeId nameId).nodup_iff.mpr
    (keyIds_nodup _ _ _))).of_perm (h.inserted typeId nameId)

/-- A published descriptor is in the bucket that a lookup reads. -/
theorem publishCandidate_agrees {d : Descriptor} (h : r.Indexed)
    (hd : d.exposedType < r.typeInterning.size) (typeId : TypeId) (nameId : NameId) :
    (r.publishCandidate d).typeIndex.Agrees (r.publishCandidate d).priorityOf typeId nameId
      (keyIds (r.publishCandidate d).descriptors typeId nameId) :=
  (sortAllCandidates_agrees (h.appendCandidate hd) typeId nameId).updateSingleUnnamed _

/-! ## Calls on a settled context -/

theorem DefaultsFlagged.withCore (h : b.DefaultsFlagged)
    (hflag : r.hasAnyDefault = b.core.hasAnyDefault) (hdefaults : r.defaults = b.core.defaults) :
    (b.withCore r).DefaultsFlagged :=
  ⟨fun hoff => by
    rw [show (b.withCore r).core.defaults = b.core.defaults from hdefaults]
    exact h.root (hflag ▸ hoff), h.scope⟩

/-- A change of a scope that keeps its default names. -/
theorem DefaultsFlagged.setScope (h : b.DefaultsFlagged) {s : ScopeId} {sc : ScopedContext}
    (hsc : sc.hasAnyScopedDefault = false →
      ∀ typeId, sc.scopedDefaults.getDefault typeId = kUnnamed) :
    (b.setScope s sc).DefaultsFlagged := by
  refine ⟨h.root, fun s' => ?_⟩
  by_cases hs : s' = s
  · subst hs
    simpa [BeanContext.setScope] using hsc
  · simpa [BeanContext.setScope, hs] using h.scope s'

/-- Calls that leave the descriptors and the index alone. -/
theorem Settled.withCore (h : b.Settled) (hstarted : r.started = true) (hindexed : r.Indexed)
    (hds : r.descriptors = b.core.descriptors) (hix : r.typeIndex = b.core.typeIndex)
    (hflag : r.hasAnyDefault = b.core.hasAnyDefault) (hdefaults : r.defaults = b.core.defaults) :
    (b.withCore r).Settled where
  started := hstarted
  indexed := hindexed
  agrees typeId nameId := by
    have hpriority : (b.withCore r).core.priorityOf = b.core.priorityOf := by
      funext id
      rw [Registry.priorityOf, Registry.priorityOf,
        show (b.withCore r).core.descriptors = b.core.descriptors from hds]
    rw [hpriority, show (b.withCore r).core.descriptors = b.core.descriptors from hds,
      show (b.withCore r).core.typeIndex = b.core.typeIndex from hix]
    exact h.agrees typeId nameId
  flagged := h.flagged.withCore hflag hdefaults

/-- A candidate that is inserted and sorted. -/
theorem Settled.publishCandidate {d : Descriptor} (h : b.Settled) (hstarted : r.started = true)
    (hindexed : r.Indexed) (hd : d.exposedType < r.typeInterning.size)
    (hflag : r.hasAnyDefault = b.core.hasAnyDefault) (hdefaults : r.defaults = b.core.defaults) :
    (b.withCore (r.publishCandidate d)).Settled where
  started := hstarted
  indexed := hindexed.publishCandidate hd
  agrees := publishCandidate_agrees hindexed hd
  flagged := h.flagged.withCore hflag hdefaults

theorem Settled.bindSingleton (h : b.Settled) (type : CppType) (name : String) (priority : ℤ)
    (object : Addr) : (b.bindSingleton type name priority object).state.Settled := by
  simp only [BeanContext.bindSingleton, Registry.bindSingleton,
    show (b.core.withNames (b.core.nameInterning.intern name).2).started = true from h.started]
  have hnames := h.indexed.internName name
  obtain ⟨hadopt, hlt⟩ := hnames.adoptType type
  split_ifs
  · exact h.withCore h.started hnames rfl rfl rfl rfl
  · simp only [Registry.bindSingletonStarted]
    split_ifs
    · exact h.withCore h.started hadopt rfl rfl rfl rfl
    · exact h.publishCandidate h.started hadopt hlt rfl rfl

theorem Settled.placeSession (h : b.Settled) (scope : ScopeId) (id : DescriptorId)
    (object : Addr) : (b.placeSession scope id object).state.Settled := by
  have hset : ∀ sc : ScopedContext, sc.hasAnyScopedDefault = (b.scopes scope).hasAnyScopedDefault →
      sc.scopedDefaults = (b.scopes scope).scopedDefaults → (b.setScope scope sc).Settled := by
    intro sc hflag hdefaults
    refine ⟨h.started, h.indexed, h.agrees, h.flagged.setScope ?_⟩
    rw [hflag, hdefaults]
    exact h.flagged.scope scope
  simp only [BeanContext.placeSession]
  split_ifs
  · exact h
  · exact hset _ rfl rfl
  · exact h
  · exact hset _ rfl rfl

theorem Settled.sessionDescriptor (h : b.Settled) (hlt : typeId < b.core.typeInterning.size)
    (priority : ℤ) :
    (b.withCore (b.core.sessionDescriptor typeId nameId priority).2).Settled := by
  unfold Registry.sessionDescriptor
  split
  · exact h
  · simp only [Registry.appendSession]
    rw [if_pos h.started]
    exact h.publishCandidate h.started h.indexed hlt rfl rfl

/-- A session binding keeps the buckets sorted and the flags right. -/
theorem Settled.bindSession (h : b.Settled) (scope : ScopeId) (type : CppType) (name : String)
    (priority : ℤ) (object : Addr) :
    (b.bindSession scope type name priority object).state.Settled := by
  have hcore : (b.withCore (b.core.internSession type name)).Settled :=
    h.withCore h.started (h.indexed.internSession type name) rfl rfl rfl rfl
  have hlt : (b.core.sessionType type).1 < (b.core.internSession type name).typeInterning.size :=
    (h.indexed.sessionType type).2
  simp only [BeanContext.bindSession]
  split_ifs
  · exact h
  · exact hcore
  · exact (hcore.sessionDescriptor hlt priority).placeSession scope _ object

theorem setDefault_getDefault (dt : DefaultsTable) (typeId typeId' : TypeId) (nameId : NameId)
    (h : dt.getDefault typeId' = kUnnamed) (hname : nameId = kUnnamed) :
    (dt.setDefault typeId nameId).getDefault typeId' = kUnnamed := by
  unfold DefaultsTable.getDefault DefaultsTable.setDefault at *
  by_cases ht : typeId' = typeId <;> simp_all

theorem DefaultsFlagged.setDefault (h : b.DefaultsFlagged) (typeId : TypeId) (nameId : NameId) :
    (b.withCore (b.core.setDefault typeId nameId)).DefaultsFlagged := by
  refine ⟨fun hoff typeId' => ?_, h.scope⟩
  simp only [BeanContext.withCore, Registry.setDefault, Bool.or_eq_false_iff, bne_eq_false_iff_eq]
    at hoff ⊢
  exact setDefault_getDefault _ _ _ _ (h.root hoff.1 typeId') hoff.2

/-- A default name changes no bucket. -/
theorem Settled.setDefault (h : b.Settled) (typeId : TypeId) (nameId : NameId) :
    (b.withCore (b.core.setDefault typeId nameId)).Settled :=
  ⟨h.started, h.indexed, h.agrees, h.flagged.setDefault typeId nameId⟩

theorem Settled.defaultNamed (h : b.Settled) (scope : Option ScopeId) (type : CppType)
    (name : String) : (b.defaultNamed scope type name).state.Settled := by
  have hnames : (b.withCore (b.core.withNames (b.core.nameInterning.intern name).2)).Settled :=
    h.withCore h.started (h.indexed.internName name) rfl rfl rfl rfl
  simp only [BeanContext.defaultNamed]
  split_ifs
  · exact h
  · exact h
  · split
    · exact h
    · split
      · exact hnames.setDefault _ _
      · exact ⟨hnames.started, hnames.indexed, hnames.agrees,
          hnames.flagged.setScope (by rintro ⟨⟩)⟩

theorem Settled.clearDefaultNamed (h : b.Settled) (scope : Option ScopeId) (type : CppType) :
    (b.clearDefaultNamed scope type).state.Settled := by
  simp only [BeanContext.clearDefaultNamed]
  split_ifs
  · exact h
  · split
    · exact h
    · split
      · exact h.setDefault _ _
      · next s =>
        split_ifs
        · exact h
        · refine ⟨h.started, h.indexed, h.agrees, h.flagged.setScope fun hoff typeId => ?_⟩
          exact setDefault_getDefault _ _ _ _ (h.flagged.scope s hoff typeId) rfl

/-- The default names of the scopes, which starting and stopping them leaves alone. -/
def SameDefaults (b b' : BeanContext) : Prop :=
  ∀ s, (b'.scopes s).hasAnyScopedDefault = (b.scopes s).hasAnyScopedDefault ∧
    (b'.scopes s).scopedDefaults = (b.scopes s).scopedDefaults

theorem SameDefaults.refl (b : BeanContext) : SameDefaults b b := fun _ => ⟨rfl, rfl⟩

theorem SameDefaults.setScope {b' : BeanContext} (h : SameDefaults b b') (scope : ScopeId)
    {sc : ScopedContext} (hflag : sc.hasAnyScopedDefault = (b'.scopes scope).hasAnyScopedDefault)
    (hdefaults : sc.scopedDefaults = (b'.scopes scope).scopedDefaults) :
    SameDefaults b (b'.setScope scope sc) := by
  intro s
  by_cases hs : s = scope
  · subst hs
    simpa [BeanContext.setScope, hflag, hdefaults] using h s
  · simpa [BeanContext.setScope, hs] using h s

/-- A start of a scope leaves the defaults. -/
theorem runScopeStart_sameDefaults (b : BeanContext) (scope : ScopeId) :
    SameDefaults b (b.runScopeStart scope) := by
  have hfold : ∀ (l : List PendingRuntimeSession) (sc : ScopedContext),
      (l.foldl (fun sc psb => sc.storePending (b.core.sessionSlotOf psb.descId) psb)
        sc).hasAnyScopedDefault = sc.hasAnyScopedDefault ∧
      (l.foldl (fun sc psb => sc.storePending (b.core.sessionSlotOf psb.descId) psb)
        sc).scopedDefaults = sc.scopedDefaults := by
    intro l
    induction l with
    | nil => exact fun _ => ⟨rfl, rfl⟩
    | cons psb l ih => exact fun sc => ih _
  exact (SameDefaults.refl b).setScope scope (hfold _ _).1 (hfold _ _).2

/-- A stop of a scope leaves the defaults, its own ones too. -/
theorem runScopeStop_sameDefaults (b : BeanContext) (scope : ScopeId) (deferDeallocation : Bool) :
    SameDefaults b (b.runScopeStop scope deferDeallocation) := by
  have hdestroy : ∀ (sc : ScopedContext) (slot : Option SessionSlot) (id : DescriptorId),
      (sc.destroyInstance slot id deferDeallocation).hasAnyScopedDefault =
        sc.hasAnyScopedDefault ∧
      (sc.destroyInstance slot id deferDeallocation).scopedDefaults = sc.scopedDefaults := by
    intro sc slot id
    unfold ScopedContext.destroyInstance
    split
    · exact ⟨rfl, rfl⟩
    · split_ifs <;> exact ⟨rfl, rfl⟩
  have hfold : ∀ (l : List DescriptorId) (sc : ScopedContext),
      (l.foldl (fun sc id => sc.destroyInstance (b.core.sessionSlotOf id) id deferDeallocation)
        sc).hasAnyScopedDefault = sc.hasAnyScopedDefault ∧
      (l.foldl (fun sc id => sc.destroyInstance (b.core.sessionSlotOf id) id deferDeallocation)
        sc).scopedDefaults = sc.scopedDefaults := by
    intro l
    induction l with
    | nil => exact fun _ => ⟨rfl, rfl⟩
    | cons id l ih =>
      intro sc
      obtain ⟨hflag, hdefaults⟩ := hdestroy sc (b.core.sessionSlotOf id) id
      exact ⟨(ih _).1.trans hflag, (ih _).2.trans hdefaults⟩
  exact (SameDefaults.refl b).setScope scope (hfold _ _).1 (hfold _ _).2

theorem SameDefaults.trans {b₁ b₂ : BeanContext} (h : SameDefaults b b₁) (h' : SameDefaults b₁ b₂) :
    SameDefaults b b₂ :=
  fun s => ⟨(h' s).1.trans (h s).1, (h' s).2.trans (h s).2⟩

theorem startScope_sameDefaults (b : BeanContext) (scope : ScopeId) :
    SameDefaults b (b.startScope scope).state := by
  simp only [startScope]
  split_ifs
  · exact .refl b
  · split
    · exact .refl b
    · exact .refl b
    · exact runScopeStart_sameDefaults b scope

theorem stopScope_sameDefaults (b : BeanContext) (scope : ScopeId) :
    SameDefaults b (b.stopScope scope) := by
  unfold stopScope
  split_ifs
  · exact runScopeStop_sameDefaults b scope false
  · exact .refl b

theorem restartScope_sameDefaults (b : BeanContext) (scope : ScopeId) :
    SameDefaults b (b.restartScope scope).state := by
  unfold restartScope
  split_ifs
  · exact (runScopeStop_sameDefaults b scope true).trans (startScope_sameDefaults _ scope)
  · exact (stopScope_sameDefaults b scope).trans (startScope_sameDefaults _ scope)

theorem DefaultsFlagged.of_sameDefaults {b' : BeanContext} (h : b.DefaultsFlagged)
    (hcore : b'.core = b.core) (hsame : SameDefaults b b') : b'.DefaultsFlagged := by
  refine ⟨hcore ▸ h.root, fun s => ?_⟩
  rw [(hsame s).1, (hsame s).2]
  exact h.scope s

/-- Calls that change the stores of scopes only. -/
theorem Settled.of_sameDefaults {b' : BeanContext} (h : b.Settled) (hcore : b'.core = b.core)
    (hsame : SameDefaults b b') : b'.Settled :=
  ⟨hcore ▸ h.started, hcore ▸ h.indexed, hcore ▸ h.agrees, h.flagged.of_sameDefaults hcore hsame⟩

/-- Every call keeps a settled context settled. -/
theorem Settled.exec (h : b.Settled) (call : Call) : (b.exec call).state.Settled := by
  cases call with
  | discover cds =>
    simp only [BeanContext.exec, BeanContext.discover, Registry.submitContribution, h.started,
      if_true]
    exact h
  | bindSingleton type name priority object => exact h.bindSingleton _ _ _ _
  | bindSession scope type name priority object => exact h.bindSession _ _ _ _ _
  | defaultNamed scope type name => exact h.defaultNamed _ _ _
  | clearDefaultNamed scope type => exact h.clearDefaultNamed _ _
  | start =>
    simp only [BeanContext.exec, BeanContext.start, Registry.start, h.started, if_true]
    exact h
  | startScope scope =>
    exact h.of_sameDefaults (startScope_core scope) (startScope_sameDefaults b scope)
  | stopScope scope =>
    exact h.of_sameDefaults (stopScope_core scope) (stopScope_sameDefaults b scope)
  | restartScope scope =>
    exact h.of_sameDefaults (restartScope_core scope) (restartScope_sameDefaults b scope)

end BeanContext

end Ctorium
