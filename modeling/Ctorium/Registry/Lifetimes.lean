import Ctorium.Registry.InjectionPoints
import Ctorium.Registry.Numbering
import Ctorium.Registry.Producers

/-!
# The lifetimes of aliases

An exposed alias is made with the lifetime of its bean, and refers to its primary by an
identity. Two contributions may have one identity, and then the start keeps the first
one; but it refuses the second one if their lifetimes differ. So the start links an alias
only to a descriptor of the same lifetime.

* `Discovered`: what the contributions of discovered types have in common;
* `linkedByLifetime_execAll`: in every context that only discovers such contributions, the
  links lead to descriptors of the same lifetime, whatever failed starts have left.
-/

namespace Ctorium

open Attempt InjectionPoints

namespace Registry

/-! ## Contributions -/

/-- What the contributions of discovered types have in common. -/
structure Discovered (H : IdentityHashes) (cds : List ContributedDescriptor) : Prop where
  primary : ∀ cd ∈ cds, cd.isExposedAlias = false → cd.concreteType = cd.exposedType
  aliased : ∀ cd ∈ cds, cd.isExposedAlias = true → ∃ p ∈ cds, p.isExposedAlias = false ∧
    cd.aliasOfPrimaryIdentity = some p.identity ∧ p.exposedType = cd.concreteType ∧
    p.beanName = cd.beanName ∧ p.lifetime = cd.lifetime
  hashed : ∀ cd ∈ cds, cd.isExposedAlias = true → cd.identity =
    H.forExposedType cd.exposedType.name cd.concreteType.name cd.beanName cd.lifetime

variable {H : IdentityHashes} {cds cds' : List ContributedDescriptor}

theorem discovered_nil : Discovered H [] where
  primary _ hcd := absurd hcd List.not_mem_nil
  aliased _ hcd := absurd hcd List.not_mem_nil
  hashed _ hcd := absurd hcd List.not_mem_nil

theorem Discovered.append (h : Discovered H cds) (h' : Discovered H cds') :
    Discovered H (cds ++ cds') where
  primary cd hcd := (List.mem_append.mp hcd).elim (h.primary cd) (h'.primary cd)
  aliased cd hcd halias := by
    rcases List.mem_append.mp hcd with hcd | hcd
    · obtain ⟨p, hp, hrest⟩ := h.aliased cd hcd halias
      exact ⟨p, List.mem_append_left _ hp, hrest⟩
    · obtain ⟨p, hp, hrest⟩ := h'.aliased cd hcd halias
      exact ⟨p, List.mem_append_right _ hp, hrest⟩
  hashed cd hcd := (List.mem_append.mp hcd).elim (h.hashed cd) (h'.hashed cd)

theorem discovered_entity (e : DiscoveredEntity) : Discovered H (makeAllDescriptors H [e]) := by
  -- By kind of entity: only an annotated type has aliases, and they share its lifetime.
  cases e with
  | annotatedType type bases ann members =>
    have hcontributions : makeAllDescriptors H [.annotatedType type bases ann members] =
        makeDescriptorForAnnotatedType H type ann members ::
          makeExposedDescriptors H type bases ann := List.append_nil _
    rw [hcontributions]
    have hexposed : ∀ cd ∈ makeExposedDescriptors H type bases ann, cd.isExposedAlias = true := by
      intro cd hcd
      obtain ⟨base, -, rfl⟩ := List.mem_map.mp hcd
      rfl
    refine ⟨fun cd hcd hprimary => ?_, fun cd hcd halias => ?_, fun cd hcd halias => ?_⟩ <;>
      rcases List.mem_cons.mp hcd with rfl | hcd
    · rfl
    · rw [hexposed cd hcd] at hprimary
      cases hprimary
    · cases halias
    · obtain ⟨base, -, rfl⟩ := List.mem_map.mp hcd
      exact ⟨_, List.mem_cons_self, rfl, rfl, rfl, rfl, rfl⟩
    · cases halias
    · obtain ⟨base, -, rfl⟩ := List.mem_map.mp hcd
      rfl
  | factory type members =>
    refine ⟨fun cd hcd _ => ?_, fun cd hcd halias => ?_, fun cd hcd halias => ?_⟩ <;>
      obtain rfl := List.mem_singleton.mp hcd
    · rfl
    · cases halias
    · cases halias
  | factoryProduct declaringFactory method ann params productType productAnn members =>
    refine ⟨fun cd hcd _ => ?_, fun cd hcd halias => ?_, fun cd hcd halias => ?_⟩ <;>
      obtain rfl := List.mem_singleton.mp hcd
    · rfl
    · cases halias
    · cases halias

theorem discovered_makeAllDescriptors (entities : List DiscoveredEntity) :
    Discovered H (makeAllDescriptors H entities) := by
  induction entities with
  | nil => exact discovered_nil
  | cons e entities ih =>
    have happend : makeAllDescriptors H (e :: entities) =
        makeAllDescriptors H [e] ++ makeAllDescriptors H entities := by
      simp [makeAllDescriptors]
    rw [happend]
    exact (discovered_entity e).append ih

/-! ## Links of the same lifetime -/

/-- The links to primaries lead to descriptors of the same lifetime. -/
def LifetimesLinked (ds : List Descriptor) : Prop :=
  ∀ (id : DescriptorId) (d : Descriptor) p, ds[id]? = some d → d.primaryDescriptor = some p →
    (ds.map Descriptor.lifetime)[p]? = some d.lifetime

section Links

variable {ds ds' : List Descriptor} {d : Descriptor} {id p : DescriptorId}

/-- A new descriptor has no primary yet, or is its own one. -/
theorem LifetimesLinked.append (h : LifetimesLinked ds)
    (hd : ∀ p, d.primaryDescriptor = some p → p = ds.length) : LifetimesLinked (ds ++ [d]) := by
  intro id d' p hid hp
  rw [List.map_append]
  rcases lt_trichotomy id ds.length with hlt | rfl | hgt
  · rw [List.getElem?_append_left hlt] at hid
    have hold := h id d' p hid hp
    rw [List.getElem?_append_left (List.getElem?_eq_some_iff.mp hold).1, hold]
  · rw [List.getElem?_concat_length] at hid
    obtain rfl := Option.some.inj hid
    obtain rfl := hd p hp
    simp
  · have hlength : (ds ++ [d]).length ≤ id := by
      rw [List.length_append, List.length_singleton]
      exact hgt
    rw [List.getElem?_eq_none hlength] at hid
    cases hid

/-- Changes that keep the lifetimes and the primaries. -/
theorem LifetimesLinked.congr (h : LifetimesLinked ds)
    (hmap : ds'.map (fun d => (d.lifetime, d.primaryDescriptor)) =
      ds.map fun d => (d.lifetime, d.primaryDescriptor)) : LifetimesLinked ds' := by
  have hlifetimes : ds'.map Descriptor.lifetime = ds.map Descriptor.lifetime := by
    have hfst := congrArg (List.map Prod.fst) hmap
    rw [List.map_map, List.map_map] at hfst
    exact hfst
  intro id d p hid hp
  have hget := congrArg (fun l => l[id]?) hmap
  simp only [List.getElem?_map, hid, Option.map_some] at hget
  obtain ⟨d', hd', heq⟩ := Option.map_eq_some_iff.mp hget.symm
  obtain ⟨hlifetime, hprimary⟩ := Prod.mk.inj heq
  rw [hlifetimes, ← hlifetime]
  exact h id d' p hd' (hprimary.trans hp)

/-- A descriptor is linked to one of the same lifetime. -/
theorem LifetimesLinked.link (h : LifetimesLinked ds) {lifetime : Lifetime}
    (hid : (ds.map Descriptor.lifetime)[id]? = some lifetime)
    (hp : (ds.map Descriptor.lifetime)[p]? = some lifetime) :
    LifetimesLinked (ds.modify id fun d => { d with primaryDescriptor := some p }) := by
  intro i d q hi hq
  have hkept : (ds.modify id fun d => { d with primaryDescriptor := some p }).map
      Descriptor.lifetime = ds.map Descriptor.lifetime :=
    map_modify_of_eq (f := fun d => { d with primaryDescriptor := some p }) (fun _ => rfl) ds id
  rw [hkept]
  rw [List.getElem?_modify] at hi
  obtain ⟨d', hd', heq⟩ := Option.map_eq_some_iff.mp hi
  by_cases hsame : id = i
  · subst hsame
    rw [if_pos rfl] at heq
    subst heq
    obtain rfl := Option.some.inj hq
    rw [List.getElem?_map, hd'] at hid
    rw [hp, ← hid]
    rfl
  · rw [if_neg hsame] at heq
    subst heq
    exact h i d' q hd' hq

end Links

/-! ## The merge -/

/-- A step of phase 1 that fails changes nothing. -/
theorem mergeContribution_of_fail {e : Failure} (h : (mergeContribution s cd).failure = some e) :
    (mergeContribution s cd).state = s := by
  unfold mergeContribution at h ⊢
  split at h
  · cases h
  · split at h
    · split_ifs <;> rfl
    · rfl

/-- A step of phase 2.5 that fails changes nothing. -/
theorem linkAlias_of_fail {link : DescriptorId × Identity} {e : Failure}
    (h : (linkAlias s link).failure = some e) : (linkAlias s link).state = s := by
  unfold linkAlias at h ⊢
  split
  · rfl
  · simp_all

/-- The start has merged these contributions, and the links that it has noted are of aliases
    among them. -/
structure Tied (done : List ContributedDescriptor) (s : StartState) : Prop where
  linked : LifetimesLinked s.registry.descriptors
  within : ∀ identity id, s.identityMap.lookup identity = some id →
    id < s.registry.descriptors.length
  found : ∀ cd ∈ done, ∃ id, s.identityMap.lookup cd.identity = some id ∧
    s.registry.lifetimes[id]? = some cd.lifetime
  asked : ∀ link ∈ s.aliasLinks, ∃ cd ∈ done, cd.isExposedAlias = true ∧
    cd.aliasOfPrimaryIdentity = some link.2 ∧ s.registry.lifetimes[link.1]? = some cd.lifetime

variable {r : Registry} {s : StartState} {done : List ContributedDescriptor}
  {cd : ContributedDescriptor}

theorem lifetimes_mono {r' : Registry} (h : r.lifetimes <+: r'.lifetimes) {id : DescriptorId}
    {lifetime : Lifetime} (hid : r.lifetimes[id]? = some lifetime) :
    r'.lifetimes[id]? = some lifetime := by
  obtain ⟨hlt, hget⟩ := List.getElem?_eq_some_iff.mp hid
  exact (List.prefix_iff_getElem?.mp h _ hlt).trans (congrArg some hget)

theorem Tied.mergeNew (h : Tied done s) (hnone : s.identityMap.lookup cd.identity = none) :
    Tied (done ++ [cd]) (mergeNew s cd) := by
  have hds : (Registry.mergeNew s cd).registry.descriptors =
      s.registry.descriptors ++ [s.registry.contributedDescriptor cd] := rfl
  have hmap : (Registry.mergeNew s cd).identityMap =
      s.identityMap ++ [(cd.identity, s.registry.descriptors.length)] := rfl
  have hlifetimes : ∀ {id lifetime}, s.registry.lifetimes[id]? = some lifetime →
      (Registry.mergeNew s cd).registry.lifetimes[id]? = some lifetime :=
    lifetimes_mono (lifetimes_prefix_of_append hds)
  have hlast : (Registry.mergeNew s cd).registry.lifetimes[s.registry.descriptors.length]? =
      some cd.lifetime := by
    rw [lifetimes, hds, List.getElem?_map, List.getElem?_concat_length]
    rfl
  -- The new identity comes behind those that are there.
  have hself : (Registry.mergeNew s cd).identityMap.lookup cd.identity =
      some s.registry.descriptors.length := by
    rw [hmap, List.lookup_append, hnone]
    simp
  refine ⟨?_, fun identity id hid => ?_, fun cd' hcd' => ?_, fun link hlink => ?_⟩
  · rw [hds]
    refine h.linked.append fun p hp => ?_
    simp only [contributedDescriptor] at hp
    split_ifs at hp
    exact (Option.some.inj hp).symm
  · rw [hds, List.length_append]
    rw [hmap, List.lookup_append] at hid
    rcases Option.or_eq_some_iff.mp hid with hold | ⟨-, hnew⟩
    · exact (h.within identity id hold).trans_le (Nat.le_add_right _ _)
    · have hmem := mem_of_lookup_eq_some hnew
      rw [List.mem_singleton] at hmem
      rw [(Prod.mk.inj hmem).2]
      exact Nat.lt_succ_self _
  · rcases List.mem_append.mp hcd' with hold | hnew
    · obtain ⟨id, hid, hlifetime⟩ := h.found cd' hold
      refine ⟨id, ?_, hlifetimes hlifetime⟩
      rw [hmap, List.lookup_append, hid]
      rfl
    · obtain rfl := List.mem_singleton.mp hnew
      exact ⟨_, hself, hlast⟩
  -- A link is one of before, or asks for the primary of the new alias.
  · have hcases : link ∈ s.aliasLinks ∨ cd.isExposedAlias = true ∧
        cd.aliasOfPrimaryIdentity = some link.2 ∧ link.1 = s.registry.descriptors.length := by
      simp only [Registry.mergeNew] at hlink
      split at hlink
      · next primary halias hasked =>
        refine (List.mem_append.mp hlink).imp id fun hnew => ?_
        rw [List.mem_singleton.mp hnew]
        exact ⟨halias, hasked, rfl⟩
      · exact .inl hlink
    rcases hcases with hold | ⟨halias, hasked, hid⟩
    · obtain ⟨cd', hcd', halias, hasked, hlifetime⟩ := h.asked link hold
      exact ⟨cd', List.mem_append_left _ hcd', halias, hasked, hlifetimes hlifetime⟩
    · exact ⟨cd, List.mem_append_right _ List.mem_cons_self, halias, hasked, hid ▸ hlast⟩

/-- A contribution with a known identity is refused if its lifetime is another one. -/
theorem Tied.mergeContribution (h : Tied done s)
    (hok : (mergeContribution s cd).failure = none) :
    Tied (done ++ [cd]) (mergeContribution s cd).state := by
  unfold Registry.mergeContribution at hok ⊢
  split at hok
  · next hnone =>
    exact h.mergeNew hnone
  · next id hid =>
    obtain ⟨existing, hexisting⟩ : ∃ existing, s.registry.descriptors[id]? = some existing :=
      ⟨_, List.getElem?_eq_getElem (h.within _ id hid)⟩
    rw [hexisting] at hok ⊢
    dsimp only at hok ⊢
    split_ifs at hok with hdivergent
    · cases hok
    rw [if_neg hdivergent]
    have hlifetime : existing.lifetime = cd.lifetime := by
      by_contra hne
      exact hdivergent (by simp [divergent, hne])
    refine ⟨h.linked, h.within, fun cd' hcd' => ?_, fun link hlink => ?_⟩
    · rcases List.mem_append.mp hcd' with hold | hnew
      · exact h.found cd' hold
      · obtain rfl := List.mem_singleton.mp hnew
        refine ⟨id, hid, ?_⟩
        change (s.registry.descriptors.map Descriptor.lifetime)[id]? = _
        rw [List.getElem?_map, hexisting, Option.map_some, hlifetime]
    · obtain ⟨cd', hcd', hrest⟩ := h.asked link hlink
      exact ⟨cd', List.mem_append_left _ hcd', hrest⟩

theorem Tied.mergeContributions {cds : List ContributedDescriptor} (h : Tied done s)
    (hok : (forEach Registry.mergeContribution cds s).failure = none) :
    Tied (done ++ cds) (forEach Registry.mergeContribution cds s).state := by
  induction cds generalizing done s with
  | nil => rwa [List.append_nil]
  | cons cd cds ih =>
    obtain ⟨hfirst, hrest, heq⟩ := forEach_cons_eq_none hok
    rw [heq, List.append_cons]
    exact ih (h.mergeContribution hfirst) hrest

theorem Tied.mergePendingSingleton (h : Tied done s) (pb : PendingRuntimeSingleton) :
    Tied done (mergePendingSingleton s pb).state := by
  simp only [Registry.mergePendingSingleton]
  split_ifs
  · exact ⟨h.linked, h.within, h.found, h.asked⟩
  · refine ⟨h.linked.append fun p hp => (Option.some.inj hp).symm, fun identity id hid => ?_,
      fun cd hcd => ?_, fun link hlink => ?_⟩
    · exact (h.within identity id hid).trans_le (List.length_append ▸ Nat.le_add_right _ _)
    · obtain ⟨id, hid, hlifetime⟩ := h.found cd hcd
      exact ⟨id, hid, lifetimes_mono (lifetimes_prefix_of_append rfl) hlifetime⟩
    · obtain ⟨cd, hcd, halias, hasked, hlifetime⟩ := h.asked link hlink
      exact ⟨cd, hcd, halias, hasked,
        lifetimes_mono (lifetimes_prefix_of_append rfl) hlifetime⟩

/-! ## The links -/

/-- A change of one descriptor that keeps its lifetime. -/
theorem Tied.modifyDescriptor (h : Tied done s) {id : DescriptorId} {f : Descriptor → Descriptor}
    (hf : ∀ d, (f d).lifetime = d.lifetime)
    (hlinked : LifetimesLinked (s.registry.modifyDescriptor id f).descriptors) :
    Tied done { s with registry := s.registry.modifyDescriptor id f } := by
  have hlifetimes : (s.registry.modifyDescriptor id f).lifetimes = s.registry.lifetimes :=
    map_modify_of_eq hf _ _
  refine ⟨hlinked, fun identity id' hid => ?_, fun cd hcd => ?_, fun link hlink => ?_⟩
  · simpa [Registry.modifyDescriptor] using h.within identity id' hid
  · rw [hlifetimes]
    exact h.found cd hcd
  · rw [hlifetimes]
    exact h.asked link hlink

theorem Tied.linkFactory (h : Tied done s) (link : DescriptorId × Identity) :
    Tied done (linkFactory s link).state := by
  unfold Registry.linkFactory
  split
  · exact h
  · next factory _ =>
    exact h.modifyDescriptor (fun _ => rfl) (h.linked.congr (map_modify_of_eq
      (f := fun d => { d with factoryMethodDescriptor := some factory }) (fun _ => rfl) _ _))

/-- The primary of an alias is among the contributions, so the descriptor that has its identity
    has its lifetime. -/
theorem Tied.linkAlias (h : Tied cds s) (hdiscovered : Discovered H cds)
    {link : DescriptorId × Identity} (hlink : link ∈ s.aliasLinks) :
    Tied cds (linkAlias s link).state := by
  unfold Registry.linkAlias
  split
  · exact h
  · next primary hprimary =>
    obtain ⟨cd, hcd, halias, hasked, hid⟩ := h.asked link hlink
    obtain ⟨p, hp, -, hidentity, -, -, hlifetime⟩ := hdiscovered.aliased cd hcd halias
    obtain ⟨id, hlookup, hfound⟩ := h.found p hp
    rw [Option.some.inj (hasked.symm.trans hidentity), hlookup] at hprimary
    obtain rfl := Option.some.inj hprimary
    refine h.modifyDescriptor (fun _ => rfl) (h.linked.link hid ?_)
    rw [← hlifetime]
    exact hfound

theorem Tied.linkAll (h : Tied cds s) (hdiscovered : Discovered H cds) :
    Tied cds (linkAll s).state := by
  have hclear : Tied cds (clearPendingSingletons s) := ⟨h.linked, h.within, h.found, h.asked⟩
  have hfactories : Tied cds (forEach Registry.linkFactory s.factoryLinks
      (clearPendingSingletons s)).state :=
    forEach_invariant (fun s' link _ hs' => hs'.linkFactory link) hclear
  refine andThen_invariant (P := Tied cds) hfactories fun t ht => ?_
  -- The list of links that the loop iterates over does not change.
  have hloop := forEach_invariant (P := fun t' => Tied cds t' ∧ t'.aliasLinks = t.aliasLinks)
    (g := Registry.linkAlias) (fun t' link (hlink : link ∈ t.aliasLinks) ht' =>
      ⟨ht'.1.linkAlias hdiscovered (ht'.2.symm ▸ hlink), ?_⟩) ⟨ht, rfl⟩
  · exact hloop.1
  · unfold Registry.linkAlias
    split <;> exact ht'.2

/-- The start links aliases to descriptors of their lifetime, whether it fails or not. -/
theorem lifetimesLinked_mergeAndLink (h : LifetimesLinked r.descriptors)
    (hdiscovered : Discovered H r.pending) :
    LifetimesLinked (mergeAndLink { registry := r }).state.registry.descriptors := by
  have hstart : Tied [] { registry := r } := ⟨h,
    fun _ _ hid => absurd hid (Option.some_ne_none _).symm,
    fun _ hcd => absurd hcd List.not_mem_nil,
    fun _ hlink => absurd hlink List.not_mem_nil⟩
  cases hfail : (forEach mergeContribution r.pending { registry := r }).failure with
  | some e =>
    -- Phase 1 stops after some of the contributions.
    obtain ⟨cds, -, hok, hstate⟩ := forEach_prefix (g := mergeContribution)
      (fun _ _ _ he => mergeContribution_of_fail he) r.pending { registry := r }
    have hall : mergeAndLink { registry := r } =
        forEach mergeContribution r.pending { registry := r } := by
      rw [mergeAndLink, mergeAll, andThen_of_fail hfail, andThen_of_fail hfail]
    rw [hall, hstate]
    exact (hstart.mergeContributions hok).linked
  | none =>
    have hmerged := hstart.mergeContributions hfail
    refine (andThen_invariant (P := Tied r.pending) (andThen_invariant (P := Tied r.pending)
      hmerged fun s hs => ?_) fun s hs => hs.linkAll hdiscovered).linked
    exact forEach_invariant (fun s' pb _ hs' => hs'.mergePendingSingleton pb) hs

theorem lifetimesLinked_start (h : LifetimesLinked r.descriptors)
    (hdiscovered : r.started = false → Discovered H r.pending) (ctx : Addr) :
    LifetimesLinked (r.start ctx).state.descriptors := by
  rcases start_cases r ctx with ⟨-, heq⟩ | ⟨_, -, -, heq⟩ | ⟨hnot, -, heq⟩
  · rw [heq]
    exact h
  · rw [heq]
    exact h
  · rw [heq]
    have hlinked := lifetimesLinked_mergeAndLink h (hdiscovered hnot)
    cases hfail : (merge { registry := r } ctx).failure with
    | none =>
      rw [(merge_of_ok hfail).2.2.2]
      have hcontext := hlinked.append (d := contextDescriptor
        (mergeAndLink { registry := r }).state.registry.contextTypeId) nofun
      exact hcontext.congr (finishStart_map _ _ fun _ _ => rfl)
    | some e =>
      rcases merge_of_fail hfail with hstate | hstate
      · rw [hstate]
        exact hlinked
      · rw [hstate]
        exact hlinked

/-! ## Calls -/

/-- What holds of the registry of a context that only discovers contributions of discovered
    types. -/
structure LinkedByLifetime (H : IdentityHashes) (r : Registry) : Prop where
  linked : LifetimesLinked r.descriptors
  discovered : r.started = false → Discovered H r.pending

theorem lifetimesLinked_nil : LifetimesLinked [] := by
  intro id d p hid
  cases hid

theorem linkedByLifetime_empty (H : IdentityHashes) (S : StdSort) :
    ({ stdSort := S } : Registry).LinkedByLifetime H :=
  ⟨lifetimesLinked_nil, fun _ => discovered_nil⟩

section Calls

variable {r' : Registry}

/-- Nothing changes that the links depend on. -/
theorem LinkedByLifetime.of_eq (h : r.LinkedByLifetime H) (hds : r'.descriptors = r.descriptors)
    (hpending : r'.pending = r.pending) (hstarted : r'.started = r.started) :
    r'.LinkedByLifetime H :=
  ⟨hds ▸ h.linked, fun hs => hpending ▸ h.discovered (hstarted.symm.trans hs)⟩

/-- The registry gets a descriptor that is its own primary. -/
theorem LinkedByLifetime.append (h : r.LinkedByLifetime H)
    (hds : r'.descriptors = r.descriptors ++ [d])
    (hd : d.primaryDescriptor = some r.descriptors.length) (hpending : r'.pending = r.pending)
    (hstarted : r'.started = r.started) : r'.LinkedByLifetime H := by
  refine ⟨?_, fun hs => hpending ▸ h.discovered (hstarted.symm.trans hs)⟩
  rw [hds]
  exact h.linked.append fun p hp => (Option.some.inj (hd.symm.trans hp)).symm

theorem LinkedByLifetime.start (h : r.LinkedByLifetime H) (ctx : Addr) :
    (r.start ctx).state.LinkedByLifetime H := by
  refine ⟨lifetimesLinked_start h.linked h.discovered ctx, fun hs => ?_⟩
  rcases start_cases r ctx with ⟨hstarted, heq⟩ | ⟨_, -, -, heq⟩ | ⟨hnot, -, heq⟩
  · rw [heq, ok_state, hstarted] at hs
    cases hs
  · rw [heq] at hs
    cases hs
  · rw [heq] at hs ⊢
    cases hfail : (merge { registry := r } ctx).failure with
    | none =>
      change (merge _ ctx).state.registry.started = false at hs
      rw [(merge_of_ok hfail).2.2.2] at hs
      cases hs
    | some e =>
      have hframe := (Frame.refl r).merge_of_fail hfail
      change Discovered H (merge _ ctx).state.registry.pending
      rw [hframe.pending]
      exact h.discovered hnot

end Calls

end Registry

namespace BeanContext

open Registry (Discovered LinkedByLifetime LifetimesLinked)

variable {H : IdentityHashes} {b : BeanContext}

theorem exec_linkedByLifetime (h : b.core.LinkedByLifetime H) {call : Call}
    (hcall : ∀ cds, call = .discover cds → Discovered H cds) :
    (b.exec call).state.core.LinkedByLifetime H := by
  -- A call appends descriptors without a primary, if any.
  cases call with
  | discover cds =>
    simp only [exec, discover, Registry.submitContribution]
    split_ifs
    · exact h
    · exact ⟨h.linked, fun hs => (h.discovered hs).append (hcall cds rfl)⟩
  | bindSingleton type name priority object =>
    simp only [exec, bindSingleton, Registry.bindSingleton]
    split_ifs
    · exact h.of_eq rfl rfl rfl
    · simp only [Registry.bindSingletonStarted]
      split_ifs
      · exact h.of_eq rfl rfl rfl
      · exact h.append rfl rfl rfl rfl
    · unfold Registry.bindSingletonPending
      split_ifs <;> exact h.of_eq rfl rfl rfl
  | bindSession scope type name priority object =>
    simp only [exec, bindSession]
    split_ifs
    · exact h
    · exact h.of_eq rfl rfl rfl
    · rw [placeSession_core]
      unfold Registry.sessionDescriptor
      split
      · exact h.of_eq rfl rfl rfl
      · simp only [Registry.appendSession]
        split_ifs <;> exact h.append rfl rfl rfl rfl
  | defaultNamed scope type name =>
    simp only [exec, defaultNamed]
    split_ifs
    · exact h
    · exact h
    · split
      · exact h
      · split <;> exact h.of_eq rfl rfl rfl
  | clearDefaultNamed scope type =>
    simp only [exec, clearDefaultNamed]
    split_ifs
    · exact h
    · split
      · exact h
      · split
        · exact h.of_eq rfl rfl rfl
        · split_ifs <;> exact h.of_eq rfl rfl rfl
  | start => exact h.start b.self
  | startScope scope => rwa [exec, startScope_core]
  | stopScope scope => rwa [exec, Attempt.ok_state, stopScope_core]
  | restartScope scope => rwa [exec, restartScope_core]

/-- The calls discover types only. -/
def DiscoversTypes (H : IdentityHashes) (calls : List Call) : Prop :=
  ∀ cds, .discover cds ∈ calls → ∃ entities, cds = makeAllDescriptors H entities

theorem linkedByLifetime_execAll (S : StdSort) (self : Addr) {calls : List Call}
    (hcalls : DiscoversTypes H calls) :
    ((fresh S self).execAll calls).core.LinkedByLifetime H := by
  refine List.foldlRecOn (motive := fun b : BeanContext => b.core.LinkedByLifetime H) calls _
    (Registry.linkedByLifetime_empty H S) fun b hb call hcall => ?_
  refine exec_linkedByLifetime hb fun cds heq => ?_
  obtain ⟨entities, rfl⟩ := hcalls cds (heq ▸ hcall)
  exact Registry.discovered_makeAllDescriptors entities

/-- The primary of a bean has its lifetime. -/
theorem lifetimeOf_primaryOf (h : LifetimesLinked b.core.descriptors) {d : DescriptorId}
    {lifetime : Lifetime} (hd : Wiring.lifetimeOf b d = some lifetime) :
    Wiring.lifetimeOf b (Wiring.primaryOf b d) = some lifetime := by
  obtain ⟨desc, hdesc, rfl⟩ := Option.map_eq_some_iff.mp hd
  rw [Wiring.primaryOf, hdesc, Option.bind_some]
  cases hp : desc.primaryDescriptor with
  | none => exact hd
  | some p => exact (List.getElem?_map ..).symm.trans (h d desc p hdesc hp)

end BeanContext

end Ctorium
