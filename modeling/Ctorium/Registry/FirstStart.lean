import Mathlib.Data.List.Induction
import Ctorium.Registry.Reachable

/-!
# Selection after the first start

The first start sorts all candidates and then inserts the context bean, with priority
0, as one more unnamed candidate of the context type, whose cached head stays as it was.
Beans that derive from the context class are exposed under this type too, so the key can
have other candidates: the *rivals* of the context bean.

After a first start that succeeds, selection follows the reference rule, for good, if
and only if the rivals outweigh the context bean or there are none
(`follows_reference_iff`).
-/

namespace Ctorium

open UniqueMax Attempt

namespace Registry

/-! ## The rivals of the context bean -/

/-- The descriptor is unnamed and exposed under the context type. -/
def isContextKey (ti : TypeInterning) (d : Descriptor) : Bool :=
  ti.nameOf d.exposedType == beanContextType.name && d.name == kUnnamed

/-- The priorities of the unnamed descriptors of the context type. -/
def contextPriorities (ti : TypeInterning) (ds : List Descriptor) : List ℤ :=
  (ds.filter (isContextKey ti)).map Descriptor.priority

/-- The contributions that the merge turns into descriptors: the first ones with their
    identities. -/
def newContributions (seen : List Identity) :
    List ContributedDescriptor → List ContributedDescriptor
  | [] => []
  | cd :: cds =>
    if cd.identity ∈ seen then newContributions seen cds
    else cd :: newContributions (seen ++ [cd.identity]) cds

/-- The contribution will be unnamed and exposed under the context type. -/
def isContextContribution (cd : ContributedDescriptor) : Bool :=
  cd.exposedType.name == beanContextType.name && cd.beanName == ""

/-- The priorities of the other unnamed candidates that the context bean will meet: those
    of descriptors that failed starts have left, and those of new contributions. -/
def contextRivals (r : Registry) : List ℤ :=
  contextPriorities r.typeInterning r.descriptors ++
    ((newContributions [] r.pending).filter isContextContribution).map
      ContributedDescriptor.priority

/-- There are no rivals, or one has a positive priority, or two have the priority 0 of the
    context bean. -/
def RivalsOutweigh (r : Registry) : Prop :=
  r.contextRivals = [] ∨ (∃ p ∈ r.contextRivals, 0 < p) ∨ 2 ≤ r.contextRivals.count 0

instance (r : Registry) : Decidable r.RivalsOutweigh := by
  unfold RivalsOutweigh
  infer_instance

/-! ## The merge counts the rivals -/

variable {r : Registry} {d : Descriptor} {ds : List Descriptor} {ti : TypeInterning}
  {s : StartState}

theorem contextPriorities_append (ti : TypeInterning) (ds : List Descriptor) (d : Descriptor) :
    contextPriorities ti (ds ++ [d]) =
      contextPriorities ti ds ++ if isContextKey ti d then [d.priority] else [] := by
  unfold contextPriorities
  rw [List.filter_append, List.map_append]
  split_ifs with h <;> simp [h]

theorem contextPriorities_intern (hti : ti.Valid) (hds : ∀ d ∈ ds, d.exposedType < ti.size)
    (type : CppType) :
    contextPriorities (ti.internByName type).2 ds = contextPriorities ti ds := by
  unfold contextPriorities
  congr 1
  refine List.filter_congr fun d hd => ?_
  rw [isContextKey, TypeInterning.nameOf_internByName hti (hds d hd), isContextKey]

theorem contextPriorities_congr {ds' : List Descriptor}
    (h : ds'.map (fun d => (d.exposedType, d.name, d.priority)) =
      ds.map fun d => (d.exposedType, d.name, d.priority)) :
    contextPriorities ti ds' = contextPriorities ti ds := by
  have hkeys : ∀ l : List Descriptor, contextPriorities ti l =
      ((l.map fun d => (d.exposedType, d.name, d.priority)).filter fun k =>
        ti.nameOf k.1 == beanContextType.name && k.2.1 == kUnnamed).map fun k => k.2.2 := by
    intro l
    rw [List.filter_map, List.map_map]
    rfl
  rw [hkeys, hkeys, h]

/-- A merged contribution counts if it has the key of the context bean. -/
theorem contextPriorities_mergeNew (h : s.registry.Indexed) (cd : ContributedDescriptor) :
    contextPriorities (mergeNew s cd).registry.typeInterning (mergeNew s cd).registry.descriptors =
      contextPriorities s.registry.typeInterning s.registry.descriptors ++
        if isContextContribution cd then [cd.priority] else [] := by
  have htypes := h.types.internByName cd.exposedType
  have hexposed : ∀ d ∈ s.registry.descriptors, d.exposedType <
      (s.registry.typeInterning.internByName cd.exposedType).2.size := fun d hd =>
    (h.exposed d hd).trans_le (TypeInterning.size_le_internByName h.types _)
  have hkey : isContextKey (mergeNew s cd).registry.typeInterning
      (s.registry.contributedDescriptor cd) = isContextContribution cd := by
    have hname : (mergeNew s cd).registry.typeInterning.nameOf
        (s.registry.contributedDescriptor cd).exposedType = cd.exposedType.name :=
      (TypeInterning.nameOf_internByName htypes (TypeInterning.internByName_lt h.types _)).trans
        (TypeInterning.nameOf_internByName_self h.types _)
    have hbean :
        ((s.registry.contributedDescriptor cd).name == kUnnamed) = (cd.beanName == "") := by
      rw [Bool.eq_iff_iff, beq_iff_eq, beq_iff_eq]
      exact NameInterning.intern_eq_kUnnamed_iff h.names
    rw [isContextKey, hname, hbean, isContextContribution]
  have hds : (mergeNew s cd).registry.descriptors =
      s.registry.descriptors ++ [s.registry.contributedDescriptor cd] := rfl
  have hpriority : (s.registry.contributedDescriptor cd).priority = cd.priority := rfl
  rw [hds, contextPriorities_append, hkey, hpriority]
  congr 1
  exact (contextPriorities_intern htypes hexposed _).trans
    (contextPriorities_intern h.types h.exposed _)

theorem lookup_eq_none_iff_not_mem {l : List (Identity × DescriptorId)} {identity : Identity} :
    l.lookup identity = none ↔ identity ∉ l.map Prod.fst := by
  rw [List.lookup_eq_none_iff]
  constructor
  · intro h hmem
    obtain ⟨p, hp, rfl⟩ := List.mem_map.mp hmem
    simpa using h p hp
  · intro h p hp
    have hne : identity ≠ p.1 := fun heq => h (heq ▸ List.mem_map_of_mem hp)
    simpa using hne

/-- The induction along a phase 1 that succeeds: what each new contribution keeps up holds of all
    of them together. -/
theorem merged_induction {Q : List ContributedDescriptor → StartState → Prop}
    (hids : ∀ new s, Q new s → s.identityMap.map Prod.fst = new.map ContributedDescriptor.identity)
    {cds : List ContributedDescriptor} (hstep : ∀ new s, ∀ cd ∈ cds, Q new s →
      cd.identity ∉ new.map ContributedDescriptor.identity → Q (new ++ [cd]) (mergeNew s cd))
    {new : List ContributedDescriptor} (h : Q new s)
    (hok : (forEach mergeContribution cds s).failure = none) :
    Q (new ++ newContributions (new.map ContributedDescriptor.identity) cds)
      (forEach mergeContribution cds s).state := by
  -- Along the contributions: those with an identity that is known change nothing.
  induction cds generalizing new s with
  | nil => simpa [forEach, newContributions] using h
  | cons cd cds ih =>
    have hlater := fun new s cd' hcd' => hstep new s cd' (List.mem_cons_of_mem cd hcd')
    obtain ⟨-, hrest, heq⟩ := forEach_cons_eq_none hok
    rw [heq, newContributions]
    cases hlookup : s.identityMap.lookup cd.identity with
    | none =>
      have hnew := lookup_eq_none_iff_not_mem.mp hlookup
      rw [hids new s h] at hnew
      have hstate : (mergeContribution s cd).state = mergeNew s cd := by
        simp [mergeContribution, hlookup]
      rw [hstate] at hrest ⊢
      have hfinal := ih hlater (hstep new s cd List.mem_cons_self h hnew) hrest
      rw [List.map_append, List.append_assoc] at hfinal
      rw [if_neg hnew]
      exact hfinal
    | some id =>
      have hseen : cd.identity ∈ new.map ContributedDescriptor.identity := by
        by_contra hnot
        rw [← hids new s h] at hnot
        rw [lookup_eq_none_iff_not_mem.mpr hnot] at hlookup
        cases hlookup
      have hstate : (mergeContribution s cd).state = s := by
        simp only [mergeContribution, hlookup]
        split
        · split <;> rfl
        · rfl
      rw [hstate] at hrest ⊢
      rw [if_pos hseen]
      exact ih hlater h hrest

/-- Phase 1 adds the new contributions to the rivals. -/
theorem contextPriorities_forEach_mergeContribution (h : s.registry.Indexed)
    {cds : List ContributedDescriptor} (hok : (forEach mergeContribution cds s).failure = none) :
    contextPriorities (forEach mergeContribution cds s).state.registry.typeInterning
        (forEach mergeContribution cds s).state.registry.descriptors =
      contextPriorities s.registry.typeInterning s.registry.descriptors ++
        ((newContributions (s.identityMap.map Prod.fst) cds).filter isContextContribution).map
          ContributedDescriptor.priority := by
  -- Along the contributions; a new one adds its priority if it is for the context.
  induction cds generalizing s with
  | nil => simp [forEach, newContributions]
  | cons cd cds ih =>
    obtain ⟨-, hrest, heq⟩ := forEach_cons_eq_none hok
    rw [heq, ih (h.mergeContribution cd) hrest, newContributions]
    cases hlookup : s.identityMap.lookup cd.identity with
    | none =>
      have hnew := lookup_eq_none_iff_not_mem.mp hlookup
      have hstate : (mergeContribution s cd).state = mergeNew s cd := by
        simp [mergeContribution, hlookup]
      rw [hstate, contextPriorities_mergeNew h cd, if_neg hnew,
        show (mergeNew s cd).identityMap.map Prod.fst =
          s.identityMap.map Prod.fst ++ [cd.identity] by simp [mergeNew],
        List.append_assoc, List.filter_cons]
      congr 1
      split_ifs <;> rfl
    | some id =>
      have hseen : cd.identity ∈ s.identityMap.map Prod.fst := by
        by_contra hnot
        rw [lookup_eq_none_iff_not_mem.mpr hnot] at hlookup
        exact absurd hlookup (by rintro ⟨⟩)
      have hstate : (mergeContribution s cd).state = s := by
        simp only [mergeContribution, hlookup]
        split
        · split <;> rfl
        · rfl
      rw [hstate, if_pos hseen]

/-- What phases 1.5 to 2.5 keep: the tables stay in step, and the rivals stay the same. -/
structure KeepsRivals (ps : List ℤ) (s : StartState) : Prop where
  indexed : s.registry.Indexed
  rivals : contextPriorities s.registry.typeInterning s.registry.descriptors = ps

variable {ps : List ℤ}

theorem KeepsRivals.mergePendingSingleton (h : KeepsRivals ps s) {pb : PendingRuntimeSingleton}
    (hpb : pb.type.name ≠ beanContextType.name) :
    KeepsRivals ps (mergePendingSingleton s pb).state := by
  refine ⟨h.indexed.mergePendingSingleton pb, ?_⟩
  have hintern := contextPriorities_intern h.indexed.types h.indexed.exposed pb.type
  simp only [Registry.mergePendingSingleton]
  split_ifs
  · exact hintern.trans h.rivals
  · refine (contextPriorities_append _ _ _).trans ?_
    rw [if_neg, List.append_nil]
    · exact hintern.trans h.rivals
    · intro hkey
      have heq := beq_iff_eq.mp (Bool.and_eq_true_iff.mp hkey).1
      exact hpb ((TypeInterning.nameOf_internByName_self h.indexed.types pb.type).symm.trans heq)

theorem KeepsRivals.modifyDescriptor (h : KeepsRivals ps s) (id : DescriptorId)
    {f : Descriptor → Descriptor} (hf : ∀ d, ((f d).exposedType, (f d).name, (f d).priority) =
      (d.exposedType, d.name, d.priority)) :
    KeepsRivals ps { s with registry := s.registry.modifyDescriptor id f } := by
  refine ⟨h.indexed.modifyDescriptor id fun d => ?_, ?_⟩
  · have hd := hf d
    simp only [Prod.mk.injEq] at hd ⊢
    exact ⟨hd.1, hd.2.1⟩
  · exact (contextPriorities_congr (map_modify_of_eq hf _ _)).trans h.rivals

theorem KeepsRivals.linkFactory (h : KeepsRivals ps s) (link : DescriptorId × Identity) :
    KeepsRivals ps (linkFactory s link).state := by
  unfold Registry.linkFactory
  split
  · exact h
  · exact h.modifyDescriptor _ fun _ => rfl

theorem KeepsRivals.linkAlias (h : KeepsRivals ps s) (link : DescriptorId × Identity) :
    KeepsRivals ps (linkAlias s link).state := by
  unfold Registry.linkAlias
  split
  · exact h
  · exact h.modifyDescriptor _ fun _ => rfl

/-- Before the candidates are sorted, the other descriptors with the key of the context bean
    are its rivals. -/
theorem contextPriorities_mergeAndLink (h : r.Indexed)
    (hpending : ∀ pb ∈ r.pendingRuntimeSingletons, pb.type.name ≠ beanContextType.name)
    (hok : (mergeAndLink { registry := r }).failure = none) :
    KeepsRivals r.contextRivals (mergeAndLink { registry := r }).state := by
  obtain ⟨hmerge, -⟩ := andThen_failure_eq_none.mp hok
  obtain ⟨hcontributions, -⟩ := andThen_failure_eq_none.mp hmerge
  have hcontributed : KeepsRivals r.contextRivals
      (forEach mergeContribution r.pending { registry := r }).state :=
    ⟨forEach_invariant (P := fun s : StartState => s.registry.Indexed)
      (fun s cd _ hs => hs.mergeContribution cd) h,
      contextPriorities_forEach_mergeContribution (s := { registry := r }) h hcontributions⟩
  have hsingletons : (forEach mergeContribution r.pending
      { registry := r }).state.registry.pendingRuntimeSingletons = r.pendingRuntimeSingletons :=
    forEach_mergeContribution_pendingRuntimeSingletons _ _
  refine andThen_invariant (P := KeepsRivals r.contextRivals) ?_ fun s hs => ?_
  · unfold mergeAll
    rw [andThen_of_ok hcontributions, hsingletons]
    exact forEach_invariant (fun s pb hpb hs => hs.mergePendingSingleton (hpending pb hpb))
      hcontributed
  · refine andThen_invariant (P := KeepsRivals r.contextRivals) ?_ fun s hs => ?_
    · exact forEach_invariant (fun s link _ hs => hs.linkFactory link) ⟨hs.indexed, hs.rivals⟩
    · exact forEach_invariant (fun s link _ hs => hs.linkAlias link) hs

/-! ## The descriptors with the key of the context bean -/

/-- The identifier of the context type. -/
abbrev contextTypeId (r : Registry) : TypeId := (r.typeInterning.internByName beanContextType).1

theorem priorityOf_eq (r : Registry) (id : DescriptorId) :
    r.priorityOf id = ((r.descriptors.map Descriptor.priority)[id]?).getD 0 := by
  rw [priorityOf, List.getElem?_map]

/-- The rivals are the candidates of the key, by their priorities. -/
theorem contextPriorities_eq_map (h : r.Indexed) :
    contextPriorities r.typeInterning r.descriptors =
      (keyIds r.descriptors r.contextTypeId kUnnamed).map r.priorityOf := by
  have hkey : ∀ d ∈ r.descriptors, isContextKey r.typeInterning d =
      (d.exposedType == r.contextTypeId && d.name == kUnnamed) := by
    intro d hd
    have hlt := h.exposed d hd
    have hname : (r.typeInterning.internByName beanContextType).2.nameOf d.exposedType =
        r.typeInterning.nameOf d.exposedType := TypeInterning.nameOf_internByName h.types hlt
    have hself := TypeInterning.nameOf_internByName_self h.types beanContextType
    unfold isContextKey
    congr 1
    rw [Bool.eq_iff_iff, beq_iff_eq, beq_iff_eq, ← hname, ← hself]
    refine ⟨fun heq => ?_, fun heq => heq ▸ rfl⟩
    exact TypeInterning.nameOf_injective (h.types.internByName _)
      (hlt.trans_le (TypeInterning.size_le_internByName h.types _))
      (TypeInterning.internByName_lt h.types _) heq
  rw [contextPriorities, List.filter_congr hkey]
  generalize r.contextTypeId = typeId
  have hpriority : r.priorityOf =
      fun id => ((r.descriptors.map Descriptor.priority)[id]?).getD 0 := funext (priorityOf_eq r)
  rw [hpriority]
  generalize r.descriptors = ds
  -- Both lists grow with the table.
  induction ds using List.reverseRecOn with
  | nil => rfl
  | append_singleton ds d ih =>
    rw [List.filter_append, List.map_append, ih, keyIds_append, List.map_append]
    congr 1
    · refine List.map_congr_left fun id hid => ?_
      obtain ⟨d', hd', -⟩ := mem_keyIds.mp hid
      have hlt : id < (ds.map Descriptor.priority).length := by
        simpa using (List.getElem?_eq_some_iff.mp hd').1
      rw [List.map_append, List.getElem?_append_left hlt]
    · by_cases hd : d.exposedType = typeId ∧ d.name = kUnnamed
      · simp [hd.1, hd.2]
      · rw [if_neg hd, List.filter_eq_nil_iff.mpr]
        · rfl
        · simpa using hd

/-! ## The registry at the end of the start -/

section Finish

variable (s : StartState) (ctx : Addr)

theorem finishStart_map {α : Type*} {g : Descriptor → α}
    (hg : ∀ d slot, g { d with sessionSlot := slot } = g d) :
    (finishStart (sortState s) ctx).registry.descriptors.map g =
      (s.registry.descriptors ++ [contextDescriptor s.registry.contextTypeId]).map g :=
  map_numberSessions hg _ _

theorem keyIds_finishStart (typeId : TypeId) (nameId : NameId) :
    keyIds (finishStart (sortState s) ctx).registry.descriptors typeId nameId =
      keyIds s.registry.descriptors typeId nameId ++
        if typeId = s.registry.contextTypeId ∧ nameId = kUnnamed then
          [s.registry.descriptors.length] else [] := by
  rw [keyIds_congr (finishStart_map s ctx fun _ _ => rfl), keyIds_append]
  congr 1
  simp only [contextDescriptor]
  exact if_congr (and_congr eq_comm eq_comm) rfl rfl

theorem priorityOf_finishStart_of_lt {id : DescriptorId}
    (hid : id < s.registry.descriptors.length) :
    (finishStart (sortState s) ctx).registry.priorityOf id = s.registry.priorityOf id := by
  rw [priorityOf_eq, priorityOf_eq, finishStart_map s ctx fun _ _ => rfl, List.map_append,
    List.getElem?_append_left (by simpa using hid)]

theorem priorityOf_finishStart_context :
    (finishStart (sortState s) ctx).registry.priorityOf s.registry.descriptors.length = 0 := by
  rw [priorityOf_eq, finishStart_map s ctx fun _ _ => rfl]
  simp [contextDescriptor]

variable {s}

theorem priorityOf_finishStart_of_mem {typeId : TypeId} {nameId : NameId} {id : DescriptorId}
    (hid : id ∈ keyIds s.registry.descriptors typeId nameId) :
    (finishStart (sortState s) ctx).registry.priorityOf id = s.registry.priorityOf id := by
  obtain ⟨d, hd, -⟩ := mem_keyIds.mp hid
  exact priorityOf_finishStart_of_lt s ctx (List.getElem?_eq_some_iff.mp hd).1

/-- The index after the start: sorted (the final priorities give the same order), and with
    the context bean as a late candidate. -/
theorem typeIndex_finishStart (h : s.registry.Indexed) :
    (finishStart (sortState s) ctx).registry.typeIndex =
      (((s.registry.typeIndex.sortAllCandidates s.registry.stdSort
        (finishStart (sortState s) ctx).registry.priorityOf).insertCandidate
          s.registry.contextTypeId kUnnamed s.registry.descriptors.length).updateSingleUnnamed
            s.registry.contextTypeId) := by
  have hsort : s.registry.typeIndex.sortAllCandidates s.registry.stdSort
      (finishStart (sortState s) ctx).registry.priorityOf =
        s.registry.typeIndex.sortAllCandidates s.registry.stdSort s.registry.priorityOf := by
    refine TypeIndex.sortAllCandidates_congr fun typeId nameId id hid => ?_
    exact priorityOf_finishStart_of_mem ctx ((h.inserted typeId nameId).mem_iff.mp hid)
  rw [hsort]
  rfl

theorem finishStart_candidates_perm (h : s.registry.Indexed) :
    (s.registry.typeIndex.inserted s.registry.contextTypeId kUnnamed ++
        [s.registry.descriptors.length]).Perm
      (keyIds (finishStart (sortState s) ctx).registry.descriptors s.registry.contextTypeId
        kUnnamed) := by
  rw [keyIds_finishStart, if_pos ⟨rfl, rfl⟩]
  exact (h.inserted _ _).append_right _

theorem inserted_nodup (h : s.registry.Indexed) (typeId : TypeId) (nameId : NameId) :
    (s.registry.typeIndex.inserted typeId nameId).Nodup :=
  (h.inserted typeId nameId).nodup_iff.mpr (keyIds_nodup _ _ _)

/-- A key other than that of the context bean has the candidates that have been sorted. -/
theorem finishStart_agrees_of_ne (h : s.registry.Indexed) {typeId : TypeId} {nameId : NameId}
    (hkey : ¬(typeId = s.registry.contextTypeId ∧ nameId = kUnnamed)) :
    (finishStart (sortState s) ctx).registry.typeIndex.Agrees
      (finishStart (sortState s) ctx).registry.priorityOf typeId nameId
      (keyIds s.registry.descriptors typeId nameId) := by
  rw [typeIndex_finishStart ctx h]
  have hsorted : (s.registry.typeIndex.sortAllCandidates s.registry.stdSort
      (finishStart (sortState s) ctx).registry.priorityOf).Agrees
      (finishStart (sortState s) ctx).registry.priorityOf typeId nameId
      (s.registry.typeIndex.inserted typeId nameId) :=
    TypeIndex.sortAllCandidates_agrees (inserted_nodup h typeId nameId)
  have hinserted := hsorted.of_perm (h.inserted typeId nameId)
  exact (hinserted.insertCandidate_of_ne rfl hkey).updateSingleUnnamed _

/-- If the rivals outweigh the context bean or there are none, all caches agree with the
    descriptors after the start. -/
theorem finishStart_agrees (h : s.registry.Indexed)
    (hweigh : s.registry.typeIndex.inserted s.registry.contextTypeId kUnnamed = [] ∨
      Outweighs (finishStart (sortState s) ctx).registry.priorityOf
        (s.registry.typeIndex.inserted s.registry.contextTypeId kUnnamed) 0)
    (typeId : TypeId) (nameId : NameId) :
    (finishStart (sortState s) ctx).registry.typeIndex.Agrees
      (finishStart (sortState s) ctx).registry.priorityOf typeId nameId
      (keyIds (finishStart (sortState s) ctx).registry.descriptors typeId nameId) := by
  by_cases hkey : typeId = s.registry.contextTypeId ∧ nameId = kUnnamed
  · obtain ⟨rfl, rfl⟩ := hkey
    rw [typeIndex_finishStart ctx h]
    rw [← priorityOf_finishStart_context s ctx] at hweigh
    exact (TypeIndex.insertCandidate_agrees (inserted_nodup h _ _) hweigh).of_perm
      (finishStart_candidates_perm ctx h)
  · rw [keyIds_finishStart, if_neg hkey, List.append_nil]
    exact finishStart_agrees_of_ne ctx h hkey

/-- If there are rivals, the selection for the key of the context bean is the one that was
    cached before it. -/
theorem selectKey_finishStart (h : s.registry.Indexed)
    (hrivals : s.registry.typeIndex.inserted s.registry.contextTypeId kUnnamed ≠ []) :
    ∃ (x : DescriptorId) (ambiguous : Bool),
      BeanContext.selectKey (finishStart (sortState s) ctx).registry s.registry.contextTypeId
          kUnnamed = (if ambiguous then .error BeanContext.ambiguousResolution else .ok x) ∧
        if ambiguous then Contested (finishStart (sortState s) ctx).registry.priorityOf
          (s.registry.typeIndex.inserted s.registry.contextTypeId kUnnamed)
        else IsUniqueMax (finishStart (sortState s) ctx).registry.priorityOf
          (s.registry.typeIndex.inserted s.registry.contextTypeId kUnnamed) x := by
  set p := (finishStart (sortState s) ctx).registry.priorityOf
  set S := s.registry.stdSort
  set l := s.registry.typeIndex.gathered S s.registry.contextTypeId kUnnamed
  have hperm : l.Perm (s.registry.typeIndex.inserted s.registry.contextTypeId kUnnamed) :=
    TypeIndex.gathered_perm S
  have hl : l ≠ [] := fun hnil => hrivals (List.perm_nil.mp (hnil ▸ hperm.symm))
  -- The entry of the context type has the candidates of before in order, and the context bean
  -- behind them.
  have hentry : (finishStart (sortState s) ctx).registry.typeIndex.entries
      s.registry.contextTypeId kUnnamed =
        some (TypeIndex.lateEntry S p l s.registry.descriptors.length) := by
    rw [typeIndex_finishStart ctx h]
    exact TypeIndex.entries_insertCandidate_sortAllCandidates
  -- There are two candidates at least, so none is the single one.
  have hsingle : (finishStart (sortState s) ctx).registry.typeIndex.singleUnnamed
      s.registry.contextTypeId = none := by
    obtain ⟨x, rest, hc⟩ := TypeIndex.sortedEntry_candidates_ne_nil S p hl
    rw [typeIndex_finishStart ctx h]
    simp only [TypeIndex.updateSingleUnnamed, Function.update_self, TypeIndex.candidatesFor,
      TypeIndex.entries_insertCandidate_sortAllCandidates, Option.map_some]
    have hlate : (TypeIndex.lateEntry S p l s.registry.descriptors.length).candidates =
        x :: rest ++ [s.registry.descriptors.length] := congrArg (· ++ _) hc
    rw [hlate]
    cases rest <;> rfl
  obtain ⟨x, hhead, hcached⟩ := TypeIndex.exists_sortedEntry_head S p hl
    (hperm.nodup_iff.mpr (inserted_nodup h _ _))
  refine ⟨x, (TypeIndex.sortedEntry S p l).ambiguous, ?_, ?_⟩
  · simp only [BeanContext.selectKey, if_true, hsingle, hentry, BeanContext.selectEntry,
      TypeIndex.lateEntry, hhead]
  · split_ifs at hcached ⊢
    · exact hcached.of_mem_iff fun _ => hperm.mem_iff
    · exact hcached.of_mem_iff fun _ => hperm.mem_iff

/-- If there are rivals and the key of the context bean follows the reference rule, then
    they outweigh the context bean. -/
theorem outweighs_of_selectKey (h : s.registry.Indexed)
    (hrivals : s.registry.typeIndex.inserted s.registry.contextTypeId kUnnamed ≠ [])
    (hselected : ∀ id, BeanContext.selectKey (finishStart (sortState s) ctx).registry
        s.registry.contextTypeId kUnnamed = .ok id →
      IsUniqueMax (finishStart (sortState s) ctx).registry.priorityOf
        (keyIds (finishStart (sortState s) ctx).registry.descriptors s.registry.contextTypeId
          kUnnamed) id)
    (hrejected : ∀ text, BeanContext.selectKey (finishStart (sortState s) ctx).registry
        s.registry.contextTypeId kUnnamed = .error (.resolutionError text) →
      keyIds (finishStart (sortState s) ctx).registry.descriptors s.registry.contextTypeId
          kUnnamed = [] ∨
        Contested (finishStart (sortState s) ctx).registry.priorityOf
          (keyIds (finishStart (sortState s) ctx).registry.descriptors s.registry.contextTypeId
            kUnnamed)) :
    Outweighs (finishStart (sortState s) ctx).registry.priorityOf
      (s.registry.typeIndex.inserted s.registry.contextTypeId kUnnamed) 0 := by
  have hperm := finishStart_candidates_perm ctx h
  obtain ⟨x, ambiguous, hselect, hcached⟩ := selectKey_finishStart ctx h hrivals
  rw [hselect] at hselected hrejected
  rw [← priorityOf_finishStart_context s ctx]
  set p := (finishStart (sortState s) ctx).registry.priorityOf
  set l := s.registry.typeIndex.inserted s.registry.contextTypeId kUnnamed
  -- The context bean has the next identifier, which no candidate has.
  have hnew : s.registry.descriptors.length ∉ l := fun hmem => by
    obtain ⟨d, hd, -⟩ := mem_keyIds.mp ((h.inserted _ _).mem_iff.mp hmem)
    exact absurd (List.getElem?_eq_some_iff.mp hd).1 (lt_irrefl _)
  -- The cached answer is an ambiguity or a bean, and the context bean must not change it.
  split_ifs at hcached with hamb
  · rw [if_pos hamb] at hrejected
    rcases hrejected _ rfl with hnil | hcontested
    · exact absurd hnil (by simp [keyIds_finishStart])
    · exact outweighs_of_concat_contested hcached
        (hcontested.of_mem_iff fun _ => hperm.symm.mem_iff)
  · rw [if_neg hamb] at hselected
    exact outweighs_of_concat_isUniqueMax hnew hcached.1
      ((hselected x rfl).of_mem_iff fun _ => hperm.symm.mem_iff)

/-- The condition on the rivals, for the candidates of the key. -/
theorem rivals_outweigh_iff {ps : List ℤ} (h : KeepsRivals ps s) :
    (ps = [] ∨ (∃ p ∈ ps, 0 < p) ∨ 2 ≤ ps.count 0) ↔
      s.registry.typeIndex.inserted s.registry.contextTypeId kUnnamed = [] ∨
        Outweighs (finishStart (sortState s) ctx).registry.priorityOf
          (s.registry.typeIndex.inserted s.registry.contextTypeId kUnnamed) 0 := by
  have hperm := h.indexed.inserted s.registry.contextTypeId kUnnamed
  have hps : ps = (keyIds s.registry.descriptors s.registry.contextTypeId kUnnamed).map
      (finishStart (sortState s) ctx).registry.priorityOf := by
    rw [← h.rivals, contextPriorities_eq_map h.indexed]
    refine List.map_congr_left fun id hid => ?_
    exact (priorityOf_finishStart_of_mem ctx hid).symm
  have hcount := two_le_count_map_iff (f := (finishStart (sortState s) ctx).registry.priorityOf)
    (k := 0) (keyIds_nodup s.registry.descriptors s.registry.contextTypeId kUnnamed)
  rw [hps, hcount, List.map_eq_nil_iff, Outweighs]
  simp only [List.mem_map, exists_exists_and_eq_and, hperm.mem_iff]
  have hnil : s.registry.typeIndex.inserted s.registry.contextTypeId kUnnamed = [] ↔
      keyIds s.registry.descriptors s.registry.contextTypeId kUnnamed = [] :=
    ⟨fun hl => List.perm_nil.mp (hl ▸ hperm.symm), fun hl => List.perm_nil.mp (hl ▸ hperm)⟩
  rw [hnil]

end Finish

end Registry

namespace BeanContext

variable {b : BeanContext}

/-! ## After the first start -/

/-- The first start that succeeds, from a context without a context bean. -/
theorem Sound.start_eq (h : b.Sound) (hfirst : b.core.beanContextDescId = none)
    (hok : b.start.failure = none) :
    (Registry.mergeAndLink { registry := b.core }).failure = none ∧
      b.start.state.core = (Registry.finishStart (Registry.sortState
        (Registry.mergeAndLink { registry := b.core }).state) b.self).registry := by
  rcases Registry.start_cases b.core b.self with ⟨hs, -⟩ | ⟨id, -, hid, -⟩ | ⟨-, -, heq⟩
  · exact absurd hfirst (h.begun hs)
  · rw [hfirst] at hid
    exact absurd hid nofun
  · have hmerge : (Registry.merge { registry := b.core } b.self).failure = none := by
      simpa only [BeanContext.start, heq] using hok
    obtain ⟨hlink, -, -, hstate⟩ := Registry.merge_of_ok hmerge
    refine ⟨hlink, ?_⟩
    change (b.core.start b.self).state = _
    rw [heq, hstate]

/-- After the first start, a resolution from the root without a name has no default. -/
theorem referenceName_start (h : b.Sound) (hfirst : b.core.beanContextDescId = none)
    (hok : b.start.failure = none) (typeId : TypeId) :
    b.start.state.referenceName none typeId kUnnamed = kUnnamed := by
  have hdefault : b.start.state.core.defaults.getDefault typeId = kUnnamed := by
    rw [(h.start_eq hfirst hok).2]
    exact ite_self _
  simp [referenceName, DefaultsTable.default?, hdefault]

/-- After the first start, the caches agree with the descriptors if the rivals outweigh the
    context bean. -/
theorem Sound.settled_start (h : b.Sound) (hfirst : b.core.beanContextDescId = none)
    (hok : b.start.failure = none) (hweigh : b.core.RivalsOutweigh) : b.start.state.Settled := by
  obtain ⟨hlink, hcore⟩ := h.start_eq hfirst hok
  have hrivals := Registry.contextPriorities_mergeAndLink h.indexed h.pending hlink
  refine ⟨?_, h.start.indexed, ?_, h.flagged.start⟩
  · rw [hcore]
    rfl
  · rw [hcore]
    exact Registry.finishStart_agrees b.self hrivals.indexed
      ((Registry.rivals_outweigh_iff b.self hrivals).mp hweigh)

/-- After a first start that succeeds, and whatever is bound or set as a default after it,
    selection follows the reference rule if and only if the rivals of the context bean
    outweigh it or there are none. -/
theorem follows_reference_iff (hb : b.Reachable) (hfirst : b.core.beanContextDescId = none)
    (hok : b.start.failure = none) :
    (∀ calls, (b.start.state.execAll calls).FollowsReference) ↔ b.core.RivalsOutweigh := by
  have hsound := hb.sound
  obtain ⟨hlink, hcore⟩ := hsound.start_eq hfirst hok
  have hrivals := Registry.contextPriorities_mergeAndLink hsound.indexed hsound.pending hlink
  have hindexed := hrivals.indexed
  have hiff := Registry.rivals_outweigh_iff b.self hrivals
  have hstarted : b.start.state.core.started = true := by
    rw [hcore]
    rfl
  constructor
  -- At the first moment after the start the selection follows the reference only if the rivals
  -- outweigh the context bean.
  · intro hfollows
    have hnow := hfollows []
    have hselect : ∀ typeId, b.start.state.select none typeId kUnnamed =
        selectKey b.start.state.core typeId kUnnamed := by
      intro typeId
      rw [select, hstarted, effectiveName_eq hsound.flagged.start,
        referenceName_start hsound hfirst hok]
      rfl
    refine hiff.mpr (or_iff_not_imp_left.mpr fun hnonempty => ?_)
    set typeId := (Registry.mergeAndLink { registry := b.core }).state.registry.contextTypeId
    have hselected := fun id => (hnow.selected none typeId kUnnamed id).mp
    have hrejected := fun text hs => (hnow.rejected none typeId kUnnamed).mp ⟨text, hs⟩
    simp only [execAll, List.foldl_nil, referenceCandidates, hselect,
      referenceName_start hsound hfirst hok, hcore] at hselected hrejected
    exact Registry.outweighs_of_selectKey b.self hindexed hnonempty hselected hrejected
  -- From a settled state every call leads to a settled one.
  · intro hweigh calls
    have hsettled := hsound.settled_start hfirst hok hweigh
    exact (execAll_invariant (P := Settled) (fun _ call hs => hs.exec call) hsettled
      calls).followsReference

/-- A singleton of class `Panel`, which derives from `ctr::BeanContext`, and its alias under
    the base class. -/
def panel : ContributedDescriptor where
  identity := 1
  exposedType := ⟨"Panel", 1⟩
  concreteType := ⟨"Panel", 1⟩
  lifetime := .singleton

@[inherit_doc panel]
def panelAlias : ContributedDescriptor where
  identity := 2
  exposedType := Registry.beanContextType
  concreteType := ⟨"Panel", 1⟩
  lifetime := .singleton
  isExposedAlias := true
  aliasOfPrimaryIdentity := some 1

/-- A named default, then a binding with a higher priority than a discovered singleton:
    without rivals of the context bean, all selections follow the reference rule. -/
theorem follows_reference_without_rivals :
    (execAll initial [.discover [panel]]).start.failure = none ∧
      ((execAll initial [.discover [panel]]).start.state.execAll
        [.defaultNamed none ⟨"Panel", 1⟩ "side",
          .bindSingleton ⟨"Panel", 1⟩ "" 7 100]).FollowsReference := by
  have hok : (execAll initial [.discover [panel]]).start.failure = none := by decide
  refine ⟨hok, ?_⟩
  exact (follows_reference_iff ⟨_, 0, [.discover [panel]], rfl⟩ rfl hok).mpr (by decide) _

/-- With one rival of priority 0, resolving the context selects the rival, although the
    context bean has the same priority. -/
theorem rival_shadows_context :
    (execAll initial [.discover [panel, panelAlias]]).start.failure = none ∧
      (execAll initial [.discover [panel, panelAlias]]).start.state.select none 1 kUnnamed = .ok 1 ∧
      ¬(execAll initial [.discover [panel, panelAlias]]).start.state.FollowsReference := by
  have hselect :
      (execAll initial [.discover [panel, panelAlias]]).start.state.select none 1 kUnnamed =
        .ok 1 := by decide
  have hcandidates :
      (execAll initial [.discover [panel, panelAlias]]).start.state.referenceCandidates
        none 1 kUnnamed = [1, 2] := by decide
  refine ⟨by decide, hselect, fun hfollows => ?_⟩
  have hmax := (hfollows.selected none 1 kUnnamed 1).mp hselect
  rw [hcandidates] at hmax
  exact absurd (hmax.2 2 (by decide) (by decide)) (by decide)

end BeanContext

end Ctorium
