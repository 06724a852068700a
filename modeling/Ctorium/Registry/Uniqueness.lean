import Ctorium.Lib.Machine
import Ctorium.Registry.Entries
import Ctorium.Registry.Slots

/-!
# The keys of bound instances

The key of a binding is its exposed type, its name and its priority. `bindSingleton` on
a started registry and the start itself look for the key of a bound singleton in the
whole table. `bindSession` only looks among the pending bindings of the same scope, and
only a started registry uses an earlier session binding of the key again; and the merge
of contributions looks for no keys at all.

In a run whose session bindings have new keys, and whose contributions and context bean
meet no bound key at the start (`NewKeys`), no bound descriptor shares its key with
another descriptor, and a binding that fails has changed nothing
(`bound_keys_unique`).
-/

namespace Ctorium

open Attempt

/-- The key of a binding. -/
def Descriptor.bindingKey (d : Descriptor) : TypeId × NameId × ℤ :=
  (d.exposedType, d.name, d.priority)

/-- No bound descriptor shares its key with another descriptor. -/
def BoundKeysUnique (ds : List Descriptor) : Prop :=
  ds.Pairwise fun d e =>
    d.origin = .runtimeBinding ∨ e.origin = .runtimeBinding → d.bindingKey ≠ e.bindingKey

instance (ds : List Descriptor) : Decidable (BoundKeysUnique ds) := by
  unfold BoundKeysUnique
  infer_instance

theorem boundKeysUnique_append {ds : List Descriptor} {d : Descriptor} :
    BoundKeysUnique (ds ++ [d]) ↔ BoundKeysUnique ds ∧ ∀ e ∈ ds,
      e.origin = .runtimeBinding ∨ d.origin = .runtimeBinding → e.bindingKey ≠ d.bindingKey := by
  simp [BoundKeysUnique, List.pairwise_append]

/-- A change of the descriptors that keeps their origins and keys. -/
theorem BoundKeysUnique.congr {ds ds' : List Descriptor} (h : BoundKeysUnique ds)
    (hmap : ds'.map (fun d => (d.origin, d.bindingKey)) =
      ds.map fun d => (d.origin, d.bindingKey)) : BoundKeysUnique ds' := by
  let R := fun p q : Origin × TypeId × NameId × ℤ =>
    p.1 = .runtimeBinding ∨ q.1 = .runtimeBinding → p.2 ≠ q.2
  have hR : ∀ l : List Descriptor, BoundKeysUnique l ↔
      (l.map fun d => (d.origin, d.bindingKey)).Pairwise R := fun l => by
    rw [List.pairwise_map]
    rfl
  rw [hR, hmap, ← hR]
  exact h

namespace Registry

variable {r : Registry} {s : StartState} {d : Descriptor}

/-- The names of a key, as contributions have them. -/
def keyText (r : Registry) (d : Descriptor) : String × String × ℤ :=
  (r.typeInterning.nameOf d.exposedType, r.nameInterning.nameOf d.name, d.priority)

@[inherit_doc keyText]
def contributedKey (cd : ContributedDescriptor) : String × String × ℤ :=
  (cd.exposedType.name, cd.beanName, cd.priority)

/-- The bound keys are unique, and all names are interned. -/
structure Keyed (r : Registry) : Prop where
  unique : BoundKeysUnique r.descriptors
  named : ∀ d ∈ r.descriptors, d.name < r.nameInterning.size
  pending : ∀ pb ∈ r.pendingRuntimeSingletons, pb.nameId < r.nameInterning.size

theorem keyed_empty (S : StdSort) : ({ stdSort := S } : Registry).Keyed :=
  ⟨List.Pairwise.nil, nofun, nofun⟩

theorem Keyed.internName (h : r.Keyed) (hindexed : r.Indexed) (name : String) :
    (r.withNames (r.nameInterning.intern name).2).Keyed := by
  have hle := NameInterning.size_le_intern hindexed.names name
  exact ⟨h.unique, fun d hd => (h.named d hd).trans_le hle,
    fun pb hpb => (h.pending pb hpb).trans_le hle⟩

theorem Keyed.appendCandidate (h : r.Keyed) (hname : d.name < r.nameInterning.size)
    (hkey : ∀ e ∈ r.descriptors, e.origin = .runtimeBinding ∨ d.origin = .runtimeBinding →
      e.bindingKey ≠ d.bindingKey) : (r.appendCandidate d).Keyed :=
  ⟨boundKeysUnique_append.mpr ⟨h.unique, hkey⟩,
    forall_mem_append_singleton h.named hname, h.pending⟩

theorem Keyed.publishCandidate (h : r.Keyed) (hname : d.name < r.nameInterning.size)
    (hkey : ∀ e ∈ r.descriptors, e.origin = .runtimeBinding ∨ d.origin = .runtimeBinding →
      e.bindingKey ≠ d.bindingKey) : (r.publishCandidate d).Keyed :=
  have h := h.appendCandidate hname hkey
  ⟨h.unique, h.named, h.pending⟩

/-- A key that `candidateKeyExists` does not find is the key of no descriptor. -/
theorem bindingKey_ne_of_not_exists {typeId : TypeId} {nameId : NameId} {priority : ℤ}
    (h : r.candidateKeyExists typeId nameId priority = false) {e : Descriptor}
    (he : e ∈ r.descriptors) : e.bindingKey ≠ (typeId, nameId, priority) := by
  intro heq
  obtain ⟨rfl, rfl, rfl⟩ : e.exposedType = typeId ∧ e.name = nameId ∧ e.priority = priority := by
    simpa [Descriptor.bindingKey] using heq
  rw [candidateKeyExists, List.any_eq_false] at h
  exact h e he (by simp)

/-! ## The merge -/

/-- No contribution has the key of a bound descriptor. -/
def Separate (r : Registry) (cds : List ContributedDescriptor) : Prop :=
  ∀ d ∈ r.descriptors, d.origin = .runtimeBinding → ∀ cd ∈ cds, r.keyText d ≠ contributedKey cd

instance (r : Registry) (cds : List ContributedDescriptor) : Decidable (r.Separate cds) := by
  unfold Separate
  infer_instance

/-- The names of the key of an existing descriptor stay when a contribution is merged. -/
theorem keyText_mergeNew (h : s.registry.Indexed) (hk : s.registry.Keyed)
    (cd : ContributedDescriptor)
    (hd : d ∈ s.registry.descriptors) :
    (mergeNew s cd).registry.keyText d = s.registry.keyText d := by
  have htypes := h.types.internByName cd.exposedType
  have hlt := h.exposed d hd
  have htype : (mergeNew s cd).registry.typeInterning.nameOf d.exposedType =
      s.registry.typeInterning.nameOf d.exposedType :=
    (TypeInterning.nameOf_internByName htypes
      (hlt.trans_le (TypeInterning.size_le_internByName h.types _))).trans
      (TypeInterning.nameOf_internByName h.types hlt)
  have hname : (mergeNew s cd).registry.nameInterning.nameOf d.name =
      s.registry.nameInterning.nameOf d.name :=
    NameInterning.nameOf_intern h.names (hk.named d hd)
  rw [keyText, htype, hname, keyText]

/-- The names of the key of a merged contribution. -/
theorem keyText_contributed (h : s.registry.Indexed) (cd : ContributedDescriptor) :
    (mergeNew s cd).registry.keyText (s.registry.contributedDescriptor cd) = contributedKey cd := by
  have htypes := h.types.internByName cd.exposedType
  have htype : (mergeNew s cd).registry.typeInterning.nameOf
      (s.registry.contributedDescriptor cd).exposedType = cd.exposedType.name :=
    (TypeInterning.nameOf_internByName htypes (TypeInterning.internByName_lt h.types _)).trans
      (TypeInterning.nameOf_internByName_self h.types _)
  have hname : (mergeNew s cd).registry.nameInterning.nameOf
      (s.registry.contributedDescriptor cd).name = cd.beanName :=
    NameInterning.nameOf_intern_self h.names _
  rw [keyText, htype, hname]
  rfl

theorem Keyed.mergeNew (h : s.registry.Indexed) (hk : s.registry.Keyed) {cd : ContributedDescriptor}
    (hsep : s.registry.Separate [cd]) : (mergeNew s cd).registry.Keyed := by
  have hle := NameInterning.size_le_intern h.names cd.beanName
  have hintern : (s.registry.internContribution cd).Keyed :=
    ⟨hk.unique, fun d hd => (hk.named d hd).trans_le hle,
      fun pb hpb => (hk.pending pb hpb).trans_le hle⟩
  refine hintern.appendCandidate (NameInterning.intern_lt h.names _) fun e he horigin heq => ?_
  have hbound : e.origin = .runtimeBinding := horigin.resolve_right cd.discovered
  have htext : (Registry.mergeNew s cd).registry.keyText e =
      (Registry.mergeNew s cd).registry.keyText (s.registry.contributedDescriptor cd) := by
    have hparts : e.exposedType = (s.registry.contributedDescriptor cd).exposedType ∧
        e.name = (s.registry.contributedDescriptor cd).name ∧
        e.priority = (s.registry.contributedDescriptor cd).priority := by
      simpa [Descriptor.bindingKey] using heq
    rw [keyText, keyText, hparts.1, hparts.2.1, hparts.2.2]
  rw [keyText_mergeNew h hk cd he, keyText_contributed h cd] at htext
  exact hsep e he hbound cd List.mem_cons_self htext

/-- Merged contributions are not bound, so the rest stays apart from the bound keys. -/
theorem Separate.mergeNew (h : s.registry.Indexed) (hk : s.registry.Keyed)
    (cd : ContributedDescriptor)
    {cds : List ContributedDescriptor} (hsep : s.registry.Separate cds) :
    (mergeNew s cd).registry.Separate cds := by
  intro d hd hbound cd' hcd'
  rcases List.mem_append.mp hd with hd | hd
  · rw [keyText_mergeNew h hk cd hd]
    exact hsep d hd hbound cd' hcd'
  · rw [List.mem_singleton.mp hd] at hbound
    exact absurd hbound cd.discovered

theorem Keyed.forEach_mergeContribution {cds : List ContributedDescriptor} (h : s.registry.Indexed)
    (hk : s.registry.Keyed)
    (hsep : s.registry.Separate (newContributions (s.identityMap.map Prod.fst) cds)) :
    (forEach mergeContribution cds s).state.registry.Keyed := by
  -- Along the contributions: a new one is apart from the bound descriptors, any other one appends
  -- nothing.
  induction cds generalizing s with
  | nil => exact hk
  | cons cd cds ih =>
    rw [newContributions] at hsep
    rw [forEach]
    cases hlookup : s.identityMap.lookup cd.identity with
    | none =>
      rw [if_neg (lookup_eq_none_iff_not_mem.mp hlookup)] at hsep
      have hstep : mergeContribution s cd = .ok (Registry.mergeNew s cd) := by
        simp [mergeContribution, hlookup]
      have hindexed := h.mergeContribution cd
      rw [hstep] at hindexed ⊢
      have hfirst : s.registry.Separate [cd] := fun d hd hbound cd' hcd' =>
        hsep d hd hbound cd' (List.mem_singleton.mp hcd' ▸ List.mem_cons_self)
      have hrest : s.registry.Separate
          (newContributions (s.identityMap.map Prod.fst ++ [cd.identity]) cds) :=
        fun d hd hbound cd' hcd' => hsep d hd hbound cd' (List.mem_cons_of_mem _ hcd')
      refine ih hindexed (hk.mergeNew h hfirst) ?_
      have hseen : (Registry.mergeNew s cd).identityMap.map Prod.fst =
          s.identityMap.map Prod.fst ++ [cd.identity] := by simp [Registry.mergeNew]
      rw [ok_state, hseen]
      exact hrest.mergeNew h hk cd
    | some id =>
      have hseen : cd.identity ∈ s.identityMap.map Prod.fst := by
        by_contra hnot
        rw [lookup_eq_none_iff_not_mem.mpr hnot] at hlookup
        cases hlookup
      rw [if_pos hseen] at hsep
      have hstate : (mergeContribution s cd).state = s := by
        simp only [mergeContribution, hlookup]
        split
        · split <;> rfl
        · rfl
      cases hfail : (mergeContribution s cd).failure with
      | none =>
        rw [andThen_of_ok hfail, hstate]
        exact ih h hk hsep
      | some e =>
        rw [andThen_of_fail hfail, hstate]
        exact hk

theorem Keyed.mergePendingSingleton (hk : s.registry.Keyed) {pb : PendingRuntimeSingleton}
    (hpb : pb.nameId < s.registry.nameInterning.size) :
    (mergePendingSingleton s pb).state.registry.Keyed := by
  have htypes : (s.registry.withTypes (s.registry.typeInterning.internByName pb.type).2).Keyed :=
    ⟨hk.unique, hk.named, hk.pending⟩
  simp only [Registry.mergePendingSingleton]
  split_ifs with hexists
  · exact htypes
  · refine htypes.appendCandidate hpb fun e he _ => ?_
    exact bindingKey_ne_of_not_exists (Bool.eq_false_of_not_eq_true hexists) he

theorem Keyed.modifyDescriptor (hk : r.Keyed) (id : DescriptorId) {f : Descriptor → Descriptor}
    (hf : ∀ d, ((f d).origin, (f d).bindingKey) = (d.origin, d.bindingKey)) :
    (r.modifyDescriptor id f).Keyed := by
  refine ⟨hk.unique.congr (map_modify_of_eq hf _ _), ?_, hk.pending⟩
  refine forall_modifyDescriptor (fun d hd => ?_) hk.named id
  have hname : (f d).name = d.name := congrArg (fun p => p.2.2.1) (hf d)
  rw [hname]
  exact hd

theorem Keyed.linkFactory (hk : s.registry.Keyed) (link : DescriptorId × Identity) :
    (linkFactory s link).state.registry.Keyed := by
  unfold Registry.linkFactory
  split
  · exact hk
  · exact hk.modifyDescriptor _ fun _ => rfl

theorem Keyed.linkAlias (hk : s.registry.Keyed) (link : DescriptorId × Identity) :
    (linkAlias s link).state.registry.Keyed := by
  unfold Registry.linkAlias
  split
  · exact hk
  · exact hk.modifyDescriptor _ fun _ => rfl

theorem Keyed.forEach_mergePendingSingleton {pbs : List PendingRuntimeSingleton}
    (hk : s.registry.Keyed) (hpbs : ∀ pb ∈ pbs, pb.nameId < s.registry.nameInterning.size) :
    (forEach Registry.mergePendingSingleton pbs s).state.registry.Keyed := by
  -- Names are not interned in this phase, so the bound of the name table stays.
  let P := fun s' : StartState => s'.registry.Keyed ∧
    s'.registry.nameInterning = s.registry.nameInterning
  have hinv : P (forEach Registry.mergePendingSingleton pbs s).state := by
    refine forEach_invariant (P := P) (fun s' pb hpb hs' => ?_) ⟨hk, rfl⟩
    refine ⟨hs'.1.mergePendingSingleton (hs'.2 ▸ hpbs pb hpb), ?_⟩
    simp only [Registry.mergePendingSingleton]
    split_ifs <;> exact hs'.2
  exact hinv.1

theorem Keyed.mergeAndLink (h : r.Indexed) (hk : r.Keyed)
    (hsep : r.Separate (newContributions [] r.pending)) :
    (mergeAndLink { registry := r }).state.registry.Keyed := by
  let P := fun s : StartState => s.registry.Keyed
  refine andThen_invariant (P := P) (andThen_invariant (P := P) ?_ fun s hs => ?_) fun s hs => ?_
  · exact Keyed.forEach_mergeContribution (s := { registry := r }) h hk hsep
  · exact hs.forEach_mergePendingSingleton hs.pending
  · refine andThen_invariant (P := P) ?_ fun s hs => ?_
    · exact forEach_invariant (P := P) (fun s link _ hs => hs.linkFactory link)
        ⟨hs.unique, hs.named, nofun⟩
    · exact forEach_invariant (P := P) (fun s link _ hs => hs.linkAlias link) hs

/-- The context bean, if none of its rivals has its priority. -/
theorem Keyed.finishStart (h : s.registry.Indexed) (hk : s.registry.Keyed)
    (hrivals : 0 ∉ contextPriorities s.registry.typeInterning s.registry.descriptors) (ctx : Addr) :
    (finishStart (sortState s) ctx).registry.Keyed := by
  have hbean : (s.registry.appendCandidate (contextDescriptor s.registry.contextTypeId)).Keyed := by
    refine hk.appendCandidate ?_ fun e he _ heq => hrivals ?_
    · exact NameInterning.kUnnamed_lt h.names
    · obtain ⟨htype, hname, hpriority⟩ : e.exposedType = s.registry.contextTypeId ∧
          e.name = kUnnamed ∧ e.priority = 0 := by
        simpa [Descriptor.bindingKey, contextDescriptor] using heq
      have htext : s.registry.typeInterning.nameOf e.exposedType = beanContextType.name := by
        have hold : (s.registry.typeInterning.internByName beanContextType).2.nameOf e.exposedType =
            s.registry.typeInterning.nameOf e.exposedType :=
          TypeInterning.nameOf_internByName h.types (h.exposed e he)
        rw [← hold, htype]
        exact TypeInterning.nameOf_internByName_self h.types _
      refine List.mem_map.mpr ⟨e, List.mem_filter.mpr ⟨he, ?_⟩, hpriority⟩
      simp [isContextKey, htext, hname]
  refine ⟨hbean.unique.congr ?_, fun d hd => ?_, hbean.pending⟩
  · exact finishStart_map s ctx fun _ _ => rfl
  · have hmem : d.name ∈ (Registry.finishStart (sortState s) ctx).registry.descriptors.map
        Descriptor.name := List.mem_map_of_mem hd
    rw [finishStart_map s ctx fun _ _ => rfl] at hmem
    obtain ⟨d', hd', hname⟩ := List.mem_map.mp hmem
    rw [← hname]
    exact hbean.named d' hd'

/-- What a start must meet for the bound keys to stay unique. -/
def StartsApart (r : Registry) : Prop :=
  r.started = false → r.beanContextDescId = none →
    r.Separate (newContributions [] r.pending) ∧ 0 ∉ r.contextRivals

instance (r : Registry) : Decidable r.StartsApart := by
  unfold StartsApart
  infer_instance

theorem Keyed.start (h : r.Indexed) (hk : r.Keyed) (hapart : r.StartsApart)
    (hpending : ∀ pb ∈ r.pendingRuntimeSingletons, pb.type.name ≠ beanContextType.name)
    (ctx : Addr) : (r.start ctx).state.Keyed := by
  rcases start_cases r ctx with ⟨-, heq⟩ | ⟨_, -, -, heq⟩ | ⟨hnot, hid, heq⟩
  · rw [heq]
    exact hk
  · rw [heq]
    exact ⟨hk.unique, hk.named, hk.pending⟩
  · rw [heq]
    obtain ⟨hsep, hrivals⟩ := hapart hnot hid
    have hmerged := Keyed.mergeAndLink h hk hsep
    cases hfail : (merge { registry := r } ctx).failure with
    | none =>
      obtain ⟨hlink, -, -, hstate⟩ := merge_of_ok hfail
      have hkeeps := contextPriorities_mergeAndLink h hpending hlink
      rw [hstate]
      refine Keyed.finishStart hkeeps.indexed hmerged ?_ ctx
      rw [hkeeps.rivals]
      exact hrivals
    | some e =>
      rcases merge_of_fail hfail with hstate | hstate
      · rw [hstate]
        exact hmerged
      · rw [hstate]
        exact ⟨hmerged.unique, hmerged.named, hmerged.pending⟩

/-! ## Bindings -/

theorem Keyed.bindSingleton (hk : r.Keyed) (type : CppType) {nameId : NameId}
    (hname : nameId < r.nameInterning.size) (priority : ℤ) (object : Addr) :
    (r.bindSingleton type nameId priority object).state.Keyed := by
  unfold Registry.bindSingleton
  split_ifs
  · exact hk
  · simp only [bindSingletonStarted]
    split_ifs with hexists
    · exact ⟨hk.unique, hk.named, hk.pending⟩
    · have hstored : ((r.withTypes (r.adoptType type).2).growSingletons object).Keyed :=
        ⟨hk.unique, hk.named, hk.pending⟩
      refine hstored.publishCandidate hname fun e he _ => ?_
      exact bindingKey_ne_of_not_exists (Bool.eq_false_of_not_eq_true hexists) he
  · unfold bindSingletonPending
    split_ifs
    · exact hk
    · refine ⟨hk.unique, hk.named, fun pb hpb => ?_⟩
      rcases List.mem_append.mp hpb with hpb | hpb
      · exact hk.pending pb hpb
      · rw [List.mem_singleton.mp hpb]
        exact hname

/-- A session binding that appends a descriptor has a new key. -/
def NewSessionKey (r : Registry) (typeId : TypeId) (nameId : NameId) (priority : ℤ) : Prop :=
  r.reusableSession typeId nameId priority = none →
    r.candidateKeyExists typeId nameId priority = false

theorem Keyed.sessionDescriptor (hk : r.Keyed) {typeId : TypeId} {nameId : NameId}
    (hname : nameId < r.nameInterning.size) {priority : ℤ}
    (hnew : r.NewSessionKey typeId nameId priority) :
    (r.sessionDescriptor typeId nameId priority).2.Keyed := by
  unfold Registry.sessionDescriptor
  split
  · exact hk
  · rename_i hnone
    have hkey := fun e he => bindingKey_ne_of_not_exists (e := e) (hnew hnone) he
    simp only [appendSession]
    split_ifs
    · have hslot : r.nextSessionSlot.Keyed := ⟨hk.unique, hk.named, hk.pending⟩
      exact hslot.publishCandidate hname fun e he _ => hkey e he
    · exact hk.appendCandidate hname fun e he _ => hkey e he

end Registry

namespace BeanContext

variable {b : BeanContext}

/-- The machine of the calls on a context. -/
def machine : Machine BeanContext Call where
  Init b := ∃ S self, b = fresh S self
  step b call := some (b.exec call).state

/-- The guard of the runs: a session binding that appends a descriptor has a new key, and the
    start meets no bound key. -/
def NewKeys (b : BeanContext) : Call → Prop
  | .start => b.core.StartsApart
  | .bindSession scope type name priority _ =>
    type.name ≠ Registry.beanContextType.name →
      (b.withCore (b.core.internSession type name)).pendingKeyExists scope
        (b.core.sessionType type).1 (b.core.nameInterning.intern name).1 priority = false →
      (b.core.internSession type name).NewSessionKey (b.core.sessionType type).1
        (b.core.nameInterning.intern name).1 priority
  | _ => True

instance (b : BeanContext) : ∀ call, Decidable (b.NewKeys call)
  | .start => inferInstanceAs (Decidable b.core.StartsApart)
  | .bindSession .. => inferInstanceAs (Decidable (_ → _ → (_ → _)))
  | .discover _ | .bindSingleton .. | .defaultNamed .. | .clearDefaultNamed .. | .startScope _
  | .stopScope _ | .restartScope _ => .isTrue trivial

/-- The calls that bind an instance. -/
def Call.binds : Call → Bool
  | .bindSingleton .. | .bindSession .. => true
  | _ => false

/-- The contexts have the same descriptors, type index, stores and pending lists. -/
structure Unchanged (b b' : BeanContext) : Prop where
  descriptors : b'.core.descriptors = b.core.descriptors
  typeIndex : b'.core.typeIndex = b.core.typeIndex
  singletons : b'.core.singletons = b.core.singletons
  pendingRuntimeSingletons : b'.core.pendingRuntimeSingletons = b.core.pendingRuntimeSingletons
  scopes : b'.scopes = b.scopes

/-- A binding takes place, or it is refused and nothing has changed. -/
def BindsOrRefuses (b : BeanContext) (call : Call) : Prop :=
  (b.exec call).failure = none ∨
    ∃ text, (b.exec call).failure = some (.configurationError text) ∧
      b.Unchanged (b.exec call).state

theorem bindsOrRefuses_bindSingleton (b : BeanContext) (type : CppType) (name : String)
    (priority : ℤ) (object : Addr) :
    b.BindsOrRefuses (.bindSingleton type name priority object) := by
  simp only [BindsOrRefuses, exec, BeanContext.bindSingleton, Registry.bindSingleton]
  split_ifs
  · exact .inr ⟨_, rfl, rfl, rfl, rfl, rfl, rfl⟩
  · simp only [Registry.bindSingletonStarted]
    split_ifs
    · exact .inr ⟨_, rfl, rfl, rfl, rfl, rfl, rfl⟩
    · exact .inl rfl
  · unfold Registry.bindSingletonPending
    split_ifs
    · exact .inr ⟨_, rfl, rfl, rfl, rfl, rfl, rfl⟩
    · exact .inl rfl

theorem bindsOrRefuses_bindSession (h : b.Slotted) (scope : ScopeId) (type : CppType)
    (name : String) (priority : ℤ) (object : Addr) :
    b.BindsOrRefuses (.bindSession scope type name priority object) := by
  have hintern : (b.withCore (b.core.internSession type name)).Slotted :=
    h.withCore h.below le_rfl le_rfl id
  simp only [BindsOrRefuses, exec, BeanContext.bindSession]
  split_ifs
  · exact .inr ⟨_, rfl, rfl, rfl, rfl, rfl, rfl⟩
  · exact .inr ⟨_, rfl, rfl, rfl, rfl, rfl, rfl⟩
  · unfold Registry.sessionDescriptor
    split
    · -- The descriptor of an earlier binding: only the scope can refuse it.
      simp only [BeanContext.placeSession]
      split_ifs
      · exact .inr ⟨_, rfl, rfl, rfl, rfl, rfl, rfl⟩
      · exact .inl rfl
      · exact .inr ⟨_, rfl, rfl, rfl, rfl, rfl, rfl⟩
      · exact .inl rfl
    · exact .inl (placeSession_new hintern scope _ _ _ object)

theorem bindsOrRefuses (h : b.Slotted) {call : Call} (hcall : call.binds = true) :
    b.BindsOrRefuses call := by
  cases call with
  | bindSingleton type name priority object => exact bindsOrRefuses_bindSingleton b _ _ _ _
  | bindSession scope type name priority object => exact bindsOrRefuses_bindSession h _ _ _ _ _
  | _ => cases hcall

/-- Every call that meets the guard keeps the bound keys unique. -/
theorem keyed_exec (h : b.Sound) (hk : b.core.Keyed) {call : Call} (hguard : b.NewKeys call) :
    (b.exec call).state.core.Keyed := by
  -- A call that appends a descriptor takes a new key.
  cases call with
  | discover cds =>
    simp only [exec, discover, Registry.submitContribution]
    split_ifs
    · exact hk
    · exact ⟨hk.unique, hk.named, hk.pending⟩
  | bindSingleton type name priority object =>
    exact (hk.internName h.indexed name).bindSingleton _
      (NameInterning.intern_lt h.indexed.names name) _ _
  | bindSession scope type name priority object =>
    have hintern : (b.core.internSession type name).Keyed :=
      have hnames := hk.internName h.indexed name
      ⟨hnames.unique, hnames.named, hnames.pending⟩
    simp only [NewKeys] at hguard
    simp only [exec, BeanContext.bindSession]
    split_ifs with hcontext hpending
    · exact hk
    · exact hintern
    · rw [placeSession_core]
      exact hintern.sessionDescriptor (NameInterning.intern_lt h.indexed.names name)
        (hguard hcontext (Bool.eq_false_of_not_eq_true hpending))
  | defaultNamed scope type name =>
    have hnames := hk.internName h.indexed name
    simp only [exec, BeanContext.defaultNamed]
    split_ifs
    · exact hk
    · exact hk
    · split
      · exact hk
      · split <;> exact ⟨hnames.unique, hnames.named, hnames.pending⟩
  | clearDefaultNamed scope type =>
    simp only [exec, BeanContext.clearDefaultNamed]
    split_ifs
    · exact hk
    · split
      · exact hk
      · split
        · exact ⟨hk.unique, hk.named, hk.pending⟩
        · split_ifs <;> exact hk
  | start => exact Registry.Keyed.start h.indexed hk hguard h.pending b.self
  | startScope scope => rwa [exec, startScope_core]
  | stopScope scope => rwa [exec, Attempt.ok_state, stopScope_core]
  | restartScope scope => rwa [exec, restartScope_core]

/-- In every run whose calls meet the guard, no bound descriptor shares its exposed type, name
    and priority with another descriptor. A further binding that meets the guard keeps it so,
    or it is refused with a `ConfigurationError` and has changed nothing. -/
theorem bound_keys_unique (h : machine.ReachableBy NewKeys b) :
    BoundKeysUnique b.core.descriptors ∧
      ∀ call : Call, call.binds = true → b.NewKeys call →
        b.BindsOrRefuses call ∧ BoundKeysUnique (b.exec call).state.core.descriptors := by
  have hinv : b.Sound ∧ b.Slotted ∧ b.core.Keyed := by
    refine h.invariant (P := fun b => b.Sound ∧ b.Slotted ∧ b.core.Keyed) ?_ ?_
    · rintro _ ⟨S, self, rfl⟩
      exact ⟨sound_fresh S self, slotted_fresh S self, Registry.keyed_empty S⟩
    · rintro b call _ ⟨hsound, hslotted, hkeyed⟩ hguard hstep
      obtain rfl := Option.some.inj hstep
      exact ⟨hsound.exec call, hslotted.exec hsound.indexed call, keyed_exec hsound hkeyed hguard⟩
  obtain ⟨hsound, hslotted, hkeyed⟩ := hinv
  refine ⟨hkeyed.unique, fun call hcall hguard => ⟨bindsOrRefuses hslotted hcall, ?_⟩⟩
  exact (keyed_exec hsound hkeyed hguard).unique

/-- A session binding of a service, on a given scope. -/
def bindService (scope : ScopeId) (object : Addr) : Call :=
  .bindSession scope ⟨"app::Service", 1⟩ "" 0 object

/-- A binding before the start that a second scope uses again after it. -/
theorem bound_key_used_again :
    BoundKeysUnique (execAll initial [bindService 0 100, .start]).core.descriptors ∧
      (execAll initial [bindService 0 100, .start]).BindsOrRefuses (bindService 1 101) := by
  have hreach : machine.ReachableBy NewKeys (execAll initial [bindService 0 100, .start]) :=
    Machine.ReachableBy.run (s := initial) (.init ⟨_, 0, rfl⟩)
      (by decide : machine.Along NewKeys initial [bindService 0 100, .start]) rfl
  have hunique := bound_keys_unique hreach
  exact ⟨hunique.1, (hunique.2 (bindService 1 101) rfl (by decide)).1⟩

/-- The same key bound on two scopes before the start: the start succeeds with two bound
    descriptors of one key. -/
theorem bound_key_duplicated :
    (execAll initial [bindService 0 100, bindService 1 101]).start.failure = none ∧
      (execAll initial [bindService 0 100, bindService 1 101]).start.state.core.started = true ∧
      ¬ BoundKeysUnique
        (execAll initial [bindService 0 100, bindService 1 101]).start.state.core.descriptors := by
  decide

end BeanContext

end Ctorium
