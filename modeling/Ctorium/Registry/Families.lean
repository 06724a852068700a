import Ctorium.Registry.Lifetimes
import Ctorium.Registry.Producers

/-!
# The descriptors of one bean

The descriptors of a bean are its primary, which exposes the concrete type, and an alias for
each direct public base. Phase 2.5 of the start links the aliases to their primaries.

* `Families`: in the descriptor table, every descriptor with a primary has the concrete type,
  the name and the lifetime of its primary, and no two descriptors with one primary expose the
  same type.
* `Apart`: what the contributions must meet for this. No type has a direct public base of its
  own qualified name, and the identity of no alias is that of a primary.
* `families_mergeAndLink`: the start makes families of the contributions, whether it fails or
  not and whatever earlier starts have left in the table.
-/

namespace Ctorium

open Attempt InjectionPoints

/-- The descriptor is an exposed alias. The context bean, which is externally owned as well, is
    a runtime binding. -/
def Descriptor.isExposedAlias (d : Descriptor) : Bool :=
  d.externallyOwned && d.origin != .runtimeBinding

namespace Registry

/-! ## Contributions -/

/-- No alias exposes the qualified name of its concrete type, nor has the identity of a primary. -/
def Apart (cds : List ContributedDescriptor) : Prop :=
  ∀ cd ∈ cds, cd.isExposedAlias = true → cd.exposedType.name ≠ cd.concreteType.name ∧
    ∀ cd' ∈ cds, cd'.isExposedAlias = false → cd'.identity ≠ cd.identity

instance (cds : List ContributedDescriptor) : Decidable (Apart cds) := by
  unfold Apart
  infer_instance

variable {H : IdentityHashes} {cds : List ContributedDescriptor}

/-- In consistent contributions, the first one of an identity agrees with all others. -/
theorem exists_agreeing {seen : List ContributedDescriptor} {cd : ContributedDescriptor}
    (h : consistentFrom seen cds = true) (hcd : cd ∈ cds) :
    ∃ first, (first ∈ seen ∨
      first ∈ newContributions (seen.map ContributedDescriptor.identity) cds) ∧
        first.identity = cd.identity ∧ agreesWith first cd = true := by
  -- Along the contributions: the first one with the identity stays the one that is known.
  induction cds generalizing seen with
  | nil => exact absurd hcd List.not_mem_nil
  | cons head cds ih =>
    rw [consistentFrom] at h
    rw [newContributions]
    cases hfind : seen.find? fun first => first.identity == head.identity with
    | none =>
      rw [if_neg fun hmem => mem_map_identity_iff.mp hmem hfind]
      rw [hfind] at h
      rcases List.mem_cons.mp hcd with rfl | hcd
      · exact ⟨cd, .inr List.mem_cons_self, rfl, by simp [agreesWith]⟩
      · obtain ⟨first, hfirst, hrest⟩ := ih h hcd
        refine ⟨first, ?_, hrest⟩
        rw [List.map_append] at hfirst
        rcases hfirst with hfirst | hfirst
        · rcases List.mem_append.mp hfirst with hfirst | hfirst
          · exact .inl hfirst
          · exact .inr (List.mem_singleton.mp hfirst ▸ List.mem_cons_self)
        · exact .inr (List.mem_cons_of_mem _ hfirst)
    | some known =>
      rw [if_pos (mem_map_identity_iff.mpr (by simp [hfind]))]
      rw [hfind] at h
      obtain ⟨hagrees, hrest⟩ := Bool.and_eq_true_iff.mp h
      rcases List.mem_cons.mp hcd with rfl | hcd
      · have hidentity : known.identity = cd.identity := by simpa using List.find?_some hfind
        exact ⟨known, .inl (List.mem_of_find?_eq_some hfind), hidentity, hagrees⟩
      · exact ih hrest hcd

/-- Contributions with different identities, whose aliases can be told apart and have their
    primaries among them. -/
structure Linkable (new : List ContributedDescriptor) : Prop where
  primary : ∀ cd ∈ new, cd.isExposedAlias = false → cd.exposedType.name = cd.concreteType.name
  apart : ∀ cd ∈ new, cd.isExposedAlias = true → cd.exposedType.name ≠ cd.concreteType.name
  aliased : ∀ cd ∈ new, cd.isExposedAlias = true → ∃ p ∈ new, p.isExposedAlias = false ∧
    cd.aliasOfPrimaryIdentity = some p.identity ∧ p.exposedType.name = cd.concreteType.name ∧
    p.beanName = cd.beanName ∧ p.lifetime = cd.lifetime
  unique : ∀ cd ∈ new, ∀ cd' ∈ new, cd.isExposedAlias = true → cd'.isExposedAlias = true →
    cd'.exposedType.name = cd.exposedType.name → cd'.concreteType.name = cd.concreteType.name →
    cd'.beanName = cd.beanName → cd'.lifetime = cd.lifetime → cd'.identity = cd.identity

/-- The contributions that phase 1 keeps are linkable if it succeeds. -/
theorem Discovered.linkable (h : Discovered H cds) (hapart : Apart cds)
    (hconsistent : consistentFrom [] cds = true) : Linkable (newContributions [] cds) where
  primary cd hcd hprimary := by rw [h.primary cd (mem_of_mem_newContributions hcd) hprimary]
  apart cd hcd halias := (hapart cd (mem_of_mem_newContributions hcd) halias).1
  aliased cd hcd halias := by
    obtain ⟨p, hp, hprimary, hidentity, htype, hname, hlifetime⟩ :=
      h.aliased cd (mem_of_mem_newContributions hcd) halias
    obtain ⟨first, hfirst, hsame, hagrees⟩ := exists_agreeing hconsistent hp
    replace hfirst := hfirst.resolve_left List.not_mem_nil
    simp only [agreesWith, Bool.and_eq_true, beq_iff_eq] at hagrees
    refine ⟨first, hfirst, ?_, hsame ▸ hidentity, hagrees.1.1.trans (htype ▸ rfl),
      hagrees.1.2.trans hname, hagrees.2.trans hlifetime⟩
    -- The identity is that of a primary, so no alias has it.
    by_contra halias'
    exact (hapart first (mem_of_mem_newContributions hfirst) (by simpa using halias')).2 p hp
      hprimary hsame.symm
  unique cd hcd cd' hcd' halias halias' hexposed hconcrete hname hlifetime := by
    rw [h.hashed cd (mem_of_mem_newContributions hcd) halias,
      h.hashed cd' (mem_of_mem_newContributions hcd') halias', hexposed, hconcrete, hname,
      hlifetime]

/-! ## Families in the descriptor table -/

/-- A descriptor without what the start and the session scopes add to it later. -/
def traits (d : Descriptor) : Descriptor :=
  { d with factoryMethodDescriptor := none, sessionSlot := none }

/-- The descriptor stands for its bean, and exposes the concrete type. -/
structure IsPrimary (ds : List Descriptor) (p : DescriptorId) (dp : Descriptor) : Prop where
  found : ds[p]? = some dp
  primary : dp.primaryDescriptor = some p
  not_alias : dp.isExposedAlias = false
  concrete : dp.exposedType = dp.concreteType

/-- Every descriptor with a primary is like it in all but the exposed type, and the descriptors
    with one primary expose different types. -/
structure Families (ds : List Descriptor) : Prop where
  primary : ∀ (id : DescriptorId) (d : Descriptor) (p : DescriptorId), ds[id]? = some d →
    d.primaryDescriptor = some p → ∃ dp, IsPrimary ds p dp ∧
      dp.concreteType = d.concreteType ∧ dp.name = d.name ∧ dp.lifetime = d.lifetime
  unique : ∀ (id id' : DescriptorId) (d d' : Descriptor) (p : DescriptorId), ds[id]? = some d →
    ds[id']? = some d' → d.primaryDescriptor = some p → d'.primaryDescriptor = some p →
    d'.exposedType = d.exposedType → id' = id

variable {ds ds' : List Descriptor} {d dp : Descriptor} {id p : DescriptorId}

theorem families_nil : Families [] where
  primary id d p hid := by cases hid
  unique id id' d d' p hid := by cases hid

theorem IsPrimary.append (h : IsPrimary ds p dp) (more : List Descriptor) :
    IsPrimary (ds ++ more) p dp :=
  ⟨by rw [List.getElem?_append_left (List.getElem?_eq_some_iff.mp h.found).1, h.found],
    h.primary, h.not_alias, h.concrete⟩

/-- A descriptor of the table after an append. -/
theorem getElem?_concat (h : (ds ++ [d])[id]? = some dp) :
    ds[id]? = some dp ∨ id = ds.length ∧ dp = d := by
  rcases lt_trichotomy id ds.length with hlt | rfl | hgt
  · rw [List.getElem?_append_left hlt] at h
    exact .inl h
  · rw [List.getElem?_append_right le_rfl] at h
    exact .inr ⟨rfl, by simpa using h.symm⟩
  · have hlength : (ds ++ [d]).length ≤ id := by
      rw [List.length_append, List.length_singleton]
      exact hgt
    rw [List.getElem?_eq_none hlength] at h
    cases h

/-- A new descriptor is a primary, or has no primary yet. -/
theorem Families.append (h : Families ds) (hd : d.primaryDescriptor = none ∨
    IsPrimary (ds ++ [d]) ds.length d) : Families (ds ++ [d]) := by
  -- The primaries of the descriptors that were there before are others.
  have hold : ∀ (id : DescriptorId) (d' : Descriptor) (p : DescriptorId), ds[id]? = some d' →
      d'.primaryDescriptor = some p → p < ds.length := by
    intro id d' p hid hp
    obtain ⟨dp, hdp, -⟩ := h.primary id d' p hid hp
    exact (List.getElem?_eq_some_iff.mp hdp.found).1
  have hself : ∀ p, d.primaryDescriptor = some p →
      p = ds.length ∧ IsPrimary (ds ++ [d]) ds.length d := by
    intro p hp
    rcases hd with hd | hd
    · rw [hd] at hp
      cases hp
    · exact ⟨(Option.some.inj (hd.primary.symm.trans hp)).symm, hd⟩
  refine ⟨fun id d' p hid hp => ?_, fun id id' d₁ d₂ p hid hid' hp hp' htype => ?_⟩
  · rcases getElem?_concat hid with hid | ⟨rfl, rfl⟩
    · obtain ⟨dp, hdp, hrest⟩ := h.primary id d' p hid hp
      exact ⟨dp, hdp.append _, hrest⟩
    · obtain ⟨rfl, hprimary⟩ := hself p hp
      exact ⟨d', hprimary, rfl, rfl, rfl⟩
  · rcases getElem?_concat hid with hold₁ | ⟨hlast₁, hd₁⟩
    · rcases getElem?_concat hid' with hold₂ | ⟨-, hd₂⟩
      · exact h.unique id id' d₁ d₂ p hold₁ hold₂ hp hp' htype
      · exact absurd (hself p (hd₂ ▸ hp')).1 (hold id d₁ p hold₁ hp).ne
    · rcases getElem?_concat hid' with hold₂ | ⟨hlast₂, -⟩
      · exact absurd (hself p (hd₁ ▸ hp)).1 (hold id' d₂ p hold₂ hp').ne
      · exact hlast₂.trans hlast₁.symm

/-- A descriptor of a table with the same traits. -/
theorem exists_of_traits (hmap : ds'.map traits = ds.map traits) (hid : ds'[id]? = some d) :
    ∃ d', ds[id]? = some d' ∧ traits d = traits d' := by
  have hget := congrArg (fun l => l[id]?) hmap
  simp only [List.getElem?_map, hid, Option.map_some] at hget
  obtain ⟨d', hd', heq⟩ := Option.map_eq_some_iff.mp hget.symm
  exact ⟨d', hd', heq.symm⟩

theorem eq_of_traits {d d' : Descriptor} (h : traits d = traits d') :
    d.primaryDescriptor = d'.primaryDescriptor ∧ d.isExposedAlias = d'.isExposedAlias ∧
      d.exposedType = d'.exposedType ∧ d.concreteType = d'.concreteType ∧ d.name = d'.name ∧
        d.lifetime = d'.lifetime ∧ d.priority = d'.priority := by
  have hfields := h
  simp only [traits, Descriptor.mk.injEq] at hfields
  obtain ⟨hexposed, hconcrete, hname, hpriority, hlifetime, horigin, -, howned, hprimary, -⟩ :=
    hfields
  exact ⟨hprimary, by rw [Descriptor.isExposedAlias, howned, horigin, Descriptor.isExposedAlias],
    hexposed, hconcrete, hname, hlifetime, hpriority⟩

/-- Changes of the descriptors that keep the traits. -/
theorem Families.congr (h : Families ds) (hmap : ds'.map traits = ds.map traits) :
    Families ds' := by
  refine ⟨fun id d p hid hp => ?_, fun id id' d₁ d₂ p hid hid' hp hp' htype => ?_⟩
  · obtain ⟨d', hid', heq⟩ := exists_of_traits hmap hid
    obtain ⟨hprimary, -, -, hconcrete, hname, hlifetime, -⟩ := eq_of_traits heq
    obtain ⟨dp, hdp, hrest⟩ := h.primary id d' p hid' (hprimary ▸ hp)
    obtain ⟨dp', hfound, heq'⟩ := exists_of_traits hmap.symm hdp.found
    obtain ⟨hprimary', halias', hexposed', hconcrete', hname', hlifetime', -⟩ := eq_of_traits heq'
    refine ⟨dp', ⟨hfound, hprimary' ▸ hdp.primary, halias' ▸ hdp.not_alias, ?_⟩, ?_, ?_, ?_⟩
    · rw [← hexposed', ← hconcrete', hdp.concrete]
    · rw [← hconcrete', hrest.1, hconcrete]
    · rw [← hname', hrest.2.1, hname]
    · rw [← hlifetime', hrest.2.2, hlifetime]
  · obtain ⟨d₁', hid, heq⟩ := exists_of_traits hmap hid
    obtain ⟨d₂', hid', heq'⟩ := exists_of_traits hmap hid'
    obtain ⟨hprimary, -, hexposed, -⟩ := eq_of_traits heq
    obtain ⟨hprimary', -, hexposed', -⟩ := eq_of_traits heq'
    exact h.unique id id' d₁' d₂' p hid hid' (hprimary ▸ hp) (hprimary' ▸ hp')
      (by rw [← hexposed, ← hexposed', htype])

/-! ## The descriptors of the contributions -/

/-- The descriptor has been made for the contribution, and has not been linked. -/
structure MadeFor (r : Registry) (cd : ContributedDescriptor) (id : DescriptorId) (d : Descriptor) :
    Prop where
  found : r.descriptors[id]? = some d
  entry : r.entryOf d = contributedEntry cd
  isAlias : d.isExposedAlias = cd.isExposedAlias
  interned : d.concreteType < r.typeInterning.size
  concrete : r.typeInterning.nameOf d.concreteType = cd.concreteType.name
  primary : d.primaryDescriptor = if cd.isExposedAlias then none else some id

/-- The alias has no primary. A start that fails leaves such aliases. -/
def IsOrphan (d : Descriptor) : Prop := d.isExposedAlias = true ∧ d.primaryDescriptor = none

/-- The start has merged the contributions `new` of `all` into a table of length `n`, and has
    linked none of them. -/
structure Merging (n : ℕ) (all new : List ContributedDescriptor) (s : StartState) : Prop where
  interned : s.registry.Interned
  families : Families s.registry.descriptors
  length : n ≤ s.registry.descriptors.length
  fresh : ∀ (id p : DescriptorId) (d : Descriptor), s.registry.descriptors[id]? = some d →
    d.primaryDescriptor = some p → n ≤ p → id = p
  identities : s.identityMap.map Prod.fst = new.map ContributedDescriptor.identity
  placed : ∀ cd ∈ new, ∃ id d, s.identityMap.lookup cd.identity = some id ∧ n ≤ id ∧
    MadeFor s.registry cd id d
  asked : ∀ link ∈ s.aliasLinks, ∃ cd ∈ new, cd.isExposedAlias = true ∧
    cd.aliasOfPrimaryIdentity = some link.2 ∧ s.identityMap.lookup cd.identity = some link.1
  noted : ∀ cd ∈ new, cd.isExposedAlias = true → ∀ identity,
    cd.aliasOfPrimaryIdentity = some identity → ∃ id,
      s.identityMap.lookup cd.identity = some id ∧ (id, identity) ∈ s.aliasLinks
  nodup : (s.aliasLinks.map Prod.fst).Nodup
  orphans : ∀ d ∈ s.registry.descriptors, IsOrphan d → ∃ cd ∈ all, cd.isExposedAlias = true ∧
    s.registry.entryOf d = contributedEntry cd

variable {r r' : Registry} {s : StartState} {cd : ContributedDescriptor} {n : ℕ}
  {all new : List ContributedDescriptor}

theorem MadeFor.extends (h : MadeFor r cd id d) (hr : r.Interned) (hext : Extends r r')
    {more : List Descriptor} (hds : r'.descriptors = r.descriptors ++ more) :
    MadeFor r' cd id d where
  found := by rw [hds, List.getElem?_append_left (List.getElem?_eq_some_iff.mp h.found).1, h.found]
  entry := (hext.entryOf hr (List.mem_of_getElem? h.found)).trans h.entry
  isAlias := h.isAlias
  interned := h.interned.trans_le hext.typesSize
  concrete := (hext.types _ h.interned).trans h.concrete
  primary := h.primary

theorem madeFor_contributedDescriptor (h : s.registry.Interned) (cd : ContributedDescriptor) :
    MadeFor (mergeNew s cd).registry cd s.registry.descriptors.length
      (s.registry.contributedDescriptor cd) where
  found := List.getElem?_concat_length
  entry := h.entryOf_contributed cd
  isAlias := by
    have horigin : (cd.origin != .runtimeBinding) = true := by simpa using cd.discovered
    simp only [Descriptor.isExposedAlias, contributedDescriptor, horigin, Bool.and_true]
  interned := TypeInterning.internByName_lt (h.indexed.types.internByName cd.exposedType) _
  concrete := TypeInterning.nameOf_internByName_self
    (h.indexed.types.internByName cd.exposedType) _
  primary := rfl

/-- The table of a registry that has grown by descriptors, with more types and names. -/
theorem Merging.grow (h : Merging n all new s) {s' : StartState} (hinterned : s'.registry.Interned)
    (hext : Extends s.registry s'.registry)
    (hds : s'.registry.descriptors = s.registry.descriptors ++ [d])
    (hidentities : s'.identityMap = s.identityMap) (haliases : s'.aliasLinks = s.aliasLinks)
    (hd : IsPrimary s'.registry.descriptors s.registry.descriptors.length d) :
    Merging n all new s' where
  interned := hinterned
  families := by
    rw [hds] at hd ⊢
    exact h.families.append (.inr hd)
  length := by
    rw [hds, List.length_append]
    exact h.length.trans (Nat.le_add_right _ _)
  fresh id p d' hid hp hn := by
    -- The new descriptor is a primary, so it starts a family of its own.
    rw [hds] at hid
    rcases getElem?_concat hid with hid | ⟨rfl, rfl⟩
    · exact h.fresh id p d' hid hp hn
    · exact Option.some.inj (hd.primary.symm.trans hp)
  identities := hidentities ▸ h.identities
  placed cd hcd := by
    obtain ⟨id, d', hid, hn, hmade⟩ := h.placed cd hcd
    exact ⟨id, d', hidentities ▸ hid, hn, hmade.extends h.interned hext hds⟩
  asked link hlink := by
    rw [haliases] at hlink
    rw [hidentities]
    exact h.asked link hlink
  noted cd hcd halias identity hidentity := by
    rw [hidentities, haliases]
    exact h.noted cd hcd halias identity hidentity
  nodup := haliases ▸ h.nodup
  orphans d' hd' horphan := by
    -- An orphan is an alias, which the new one is not.
    rw [hds] at hd'
    rcases List.mem_append.mp hd' with hd' | hd'
    · obtain ⟨cd, hcd, halias, hentry⟩ := h.orphans d' hd' horphan
      exact ⟨cd, hcd, halias, (hext.entryOf h.interned hd').trans hentry⟩
    · rw [List.mem_singleton.mp hd', IsOrphan, hd.not_alias] at horphan
      exact absurd horphan.1 Bool.false_ne_true

theorem Merging.mergeNew (h : Merging n all new s) (hmem : cd ∈ all)
    (hprimary : cd.isExposedAlias = false → cd.exposedType.name = cd.concreteType.name)
    (hnew : cd.identity ∉ new.map ContributedDescriptor.identity) :
    Merging n all (new ++ [cd]) (mergeNew s cd) := by
  obtain ⟨hinterned, -, hext⟩ := h.interned.mergeNew cd
  have hmade := madeFor_contributedDescriptor h.interned cd
  have hds : (Registry.mergeNew s cd).registry.descriptors =
      s.registry.descriptors ++ [s.registry.contributedDescriptor cd] := rfl
  have hmap : (Registry.mergeNew s cd).identityMap =
      s.identityMap ++ [(cd.identity, s.registry.descriptors.length)] := rfl
  have hnone : s.identityMap.lookup cd.identity = none := by
    rw [lookup_eq_none_iff_not_mem, h.identities]
    exact hnew
  have hself : (Registry.mergeNew s cd).identityMap.lookup cd.identity =
      some s.registry.descriptors.length := by
    rw [hmap, List.lookup_append, hnone]
    simp
  have hkept : ∀ {identity : Identity} {id : DescriptorId},
      s.identityMap.lookup identity = some id →
        (Registry.mergeNew s cd).identityMap.lookup identity = some id := by
    intro identity id hid
    rw [hmap, List.lookup_append, hid]
    rfl
  have hlinks : s.aliasLinks ⊆ (Registry.mergeNew s cd).aliasLinks := by
    simp only [Registry.mergeNew]
    split
    · exact List.subset_append_left _ _
    · exact List.Subset.refl _
  have hwithin : ∀ id ∈ s.aliasLinks.map Prod.fst, id < s.registry.descriptors.length := by
    intro id hid
    obtain ⟨link, hlink, rfl⟩ := List.mem_map.mp hid
    obtain ⟨cd', hcd', -, -, hid⟩ := h.asked link hlink
    obtain ⟨i, d, hi, -, hmade⟩ := h.placed cd' hcd'
    obtain rfl := Option.some.inj (hid.symm.trans hi)
    exact (List.getElem?_eq_some_iff.mp hmade.found).1
  refine ⟨hinterned, ?_, ?_, fun id p d hid hp hn => ?_, ?_, fun cd' hcd' => ?_,
    fun link hlink => ?_,
    fun cd' hcd' halias identity hidentity => ?_, ?_, fun d hd horphan => ?_⟩
  · refine h.families.append ?_
    cases halias : cd.isExposedAlias with
    | true => exact .inl (by rw [hmade.primary, halias]; rfl)
    | false =>
      refine .inr ⟨hmade.found, by rw [hmade.primary, halias]; rfl, by rw [hmade.isAlias, halias],
        ?_⟩
      -- The types have one name, so they are one type.
      refine TypeInterning.nameOf_injective hinterned.indexed.types
        (hinterned.indexed.exposed _ (List.mem_of_getElem? hmade.found)) hmade.interned ?_
      rw [hmade.concrete, ← hprimary halias]
      exact congrArg Entry.typeName hmade.entry
  · rw [hds, List.length_append]
    exact h.length.trans (Nat.le_add_right _ _)
  · rcases getElem?_concat hid with hid | ⟨rfl, rfl⟩
    · exact h.fresh id p d hid hp hn
    · rw [hmade.primary] at hp
      split_ifs at hp
      exact Option.some.inj hp
  · rw [hmap, List.map_append, h.identities, List.map_append]
    rfl
  · rcases List.mem_append.mp hcd' with hcd' | hcd'
    · obtain ⟨id, d, hid, hn, hold⟩ := h.placed cd' hcd'
      exact ⟨id, d, hkept hid, hn, hold.extends h.interned hext hds⟩
    · obtain rfl := List.mem_singleton.mp hcd'
      exact ⟨_, _, hself, h.length, hmade⟩
  · have hcases : link ∈ s.aliasLinks ∨ cd.isExposedAlias = true ∧
        cd.aliasOfPrimaryIdentity = some link.2 ∧ link.1 = s.registry.descriptors.length := by
      simp only [Registry.mergeNew] at hlink
      split at hlink
      · next primary halias hasked =>
        refine (List.mem_append.mp hlink).imp id fun hlast => ?_
        rw [List.mem_singleton.mp hlast]
        exact ⟨halias, hasked, rfl⟩
      · exact .inl hlink
    rcases hcases with hold | ⟨halias, hasked, hid⟩
    · obtain ⟨cd', hcd', halias, hasked, hid⟩ := h.asked link hold
      exact ⟨cd', List.mem_append_left _ hcd', halias, hasked, hkept hid⟩
    · exact ⟨cd, List.mem_append_right _ List.mem_cons_self, halias, hasked, hid ▸ hself⟩
  · rcases List.mem_append.mp hcd' with hcd' | hcd'
    · obtain ⟨id, hid, hlink⟩ := h.noted cd' hcd' halias identity hidentity
      exact ⟨id, hkept hid, hlinks hlink⟩
    · obtain rfl := List.mem_singleton.mp hcd'
      refine ⟨_, hself, ?_⟩
      simp only [Registry.mergeNew, halias, hidentity]
      exact List.mem_append_right _ List.mem_cons_self
  · simp only [Registry.mergeNew]
    split
    · exact (nodup_concat h.nodup hwithin _).1
    · exact h.nodup
  · rcases List.mem_append.mp hd with hd | hd
    · obtain ⟨cd', hcd', halias, hentry⟩ := h.orphans d hd horphan
      exact ⟨cd', hcd', halias, (hext.entryOf h.interned hd).trans hentry⟩
    · rw [List.mem_singleton.mp hd] at horphan ⊢
      exact ⟨cd, hmem, hmade.isAlias ▸ horphan.1, hmade.entry⟩

theorem Merging.mergePendingSingleton (h : Merging n all new s) {pb : PendingRuntimeSingleton}
    (hname : pb.nameId < s.registry.nameInterning.size) :
    Merging n all new (mergePendingSingleton s pb).state := by
  have hext := h.interned.extends_types pb.type
  have hinterned := h.interned.withTypes pb.type
  have htype := TypeInterning.internByName_lt h.interned.indexed.types pb.type
  simp only [Registry.mergePendingSingleton]
  split_ifs
  · refine ⟨hinterned, h.families, h.length, h.fresh, h.identities, fun cd hcd => ?_, h.asked,
      h.noted, h.nodup, fun d hd horphan => ?_⟩
    · obtain ⟨id, d, hid, hn, hmade⟩ := h.placed cd hcd
      have happend : s.registry.descriptors = s.registry.descriptors ++ [] :=
        (List.append_nil _).symm
      exact ⟨id, d, hid, hn, hmade.extends h.interned hext happend⟩
    · obtain ⟨cd, hcd, halias, hentry⟩ := h.orphans d hd horphan
      exact ⟨cd, hcd, halias, (hext.entryOf h.interned hd).trans hentry⟩
  · refine h.grow (hinterned.appendCandidate htype hname) ⟨hext.types, hext.names, hext.typesSize,
      hext.namesSize⟩ rfl rfl rfl ⟨List.getElem?_concat_length, rfl, rfl, rfl⟩

/-! ## The links -/

/-- The table after links of aliases to primaries have been set, and maybe links to factory
    methods. -/
def Relinked (s : StartState) (links : List (DescriptorId × Identity)) (ds : List Descriptor) :
    Prop :=
  ∀ i : DescriptorId, ds[i]?.map traits =
    (s.registry.descriptors[i]?.map traits).map fun d : Descriptor => { d with
      primaryDescriptor := ((links.lookup i).bind fun identity =>
        s.identityMap.lookup identity).or d.primaryDescriptor }

/-- The contribution is an alias of the primary with the descriptor `p`. -/
structure LinkedTo (n : ℕ) (new : List ContributedDescriptor) (s : StartState) (id : DescriptorId)
    (d : Descriptor) (p : DescriptorId) (dp : Descriptor) (cd : ContributedDescriptor) : Prop where
  mem : cd ∈ new
  isAlias : cd.isExposedAlias = true
  lookup : s.identityMap.lookup cd.identity = some id
  madeFor : MadeFor s.registry cd id d
  after : n ≤ p
  primary : IsPrimary s.registry.descriptors p dp
  concrete : s.registry.typeInterning.nameOf dp.exposedType = cd.concreteType.name
  name : s.registry.nameInterning.nameOf dp.name = cd.beanName
  lifetime : dp.lifetime = cd.lifetime

/-- What has been made for a primary is one. -/
theorem Merging.isPrimary (h : Merging n all new s) (hlinkable : Linkable new) (hmem : cd ∈ new)
    (hprimary : cd.isExposedAlias = false) (hmade : MadeFor s.registry cd id d) :
    IsPrimary s.registry.descriptors id d where
  found := hmade.found
  primary := by
    rw [hmade.primary, hprimary]
    rfl
  not_alias := hmade.isAlias.trans hprimary
  concrete := by
    refine TypeInterning.nameOf_injective h.interned.indexed.types
      (h.interned.indexed.exposed d (List.mem_of_getElem? hmade.found)) hmade.interned ?_
    rw [hmade.concrete, ← hlinkable.primary cd hmem hprimary]
    exact congrArg Entry.typeName hmade.entry

/-- A noted link is one of an alias to its primary. -/
theorem Merging.exists_linkedTo (h : Merging n all new s) (hlinkable : Linkable new)
    {link : DescriptorId × Identity} (hlink : link ∈ s.aliasLinks) :
    ∃ d p dp cd, s.identityMap.lookup link.2 = some p ∧ LinkedTo n new s link.1 d p dp cd := by
  obtain ⟨cd, hcd, halias, hasked, hid⟩ := h.asked link hlink
  obtain ⟨id, d, hid', -, hmade⟩ := h.placed cd hcd
  obtain rfl := Option.some.inj (hid.symm.trans hid')
  obtain ⟨p, hp, hprimary, hidentity, htype, hname, hlifetime⟩ := hlinkable.aliased cd hcd halias
  obtain ⟨i, dp, hi, hn, hmade'⟩ := h.placed p hp
  rw [Option.some.inj (hasked.symm.trans hidentity)]
  exact ⟨d, i, dp, cd, hi, hcd, halias, hid, hmade, hn, h.isPrimary hlinkable hp hprimary hmade',
    (congrArg Entry.typeName hmade'.entry).trans htype,
    (congrArg Entry.beanName hmade'.entry).trans hname,
    (congrArg Entry.lifetime hmade'.entry).trans hlifetime⟩

/-- The descriptors with a primary after the links: they had it before, or are linked aliases. -/
theorem Merging.relinked_cases (h : Merging n all new s) (hlinkable : Linkable new)
    {links : List (DescriptorId × Identity)} (hlinks : links ⊆ s.aliasLinks)
    (hds : Relinked s links ds) {d' : Descriptor} (hid : ds[id]? = some d')
    (hp : d'.primaryDescriptor = some p) :
    ∃ d, s.registry.descriptors[id]? = some d ∧
      traits d' = traits { d with primaryDescriptor := some p } ∧
      (d.primaryDescriptor = some p ∨ ∃ dp cd, LinkedTo n new s id d p dp cd) := by
  -- What the links leave at `id` is the descriptor of before with the primary of its link.
  have hget := hds id
  rw [hid, Option.map_some, Option.map_map] at hget
  obtain ⟨d, hd, heq⟩ := Option.map_eq_some_iff.mp hget.symm
  replace heq : traits { d with primaryDescriptor := ((links.lookup id).bind fun identity =>
      s.identityMap.lookup identity).or d.primaryDescriptor } = traits d' := heq
  have hprimary := (eq_of_traits heq).1
  rw [hp] at hprimary
  refine ⟨d, hd, heq.symm.trans ?_, ?_⟩
  · rw [show ((links.lookup id).bind fun identity => s.identityMap.lookup identity).or
      d.primaryDescriptor = some p from hprimary]
  -- Without a link the descriptor keeps its primary.
  · cases hlookup : links.lookup id with
    | none =>
      rw [hlookup] at hprimary
      exact .inl hprimary
    | some identity =>
      obtain ⟨d₁, i, dp, cd, hi, hlinked⟩ := h.exists_linkedTo hlinkable
        (hlinks (mem_of_lookup_eq_some hlookup))
      obtain rfl := Option.some.inj (hlinked.madeFor.found.symm.trans hd)
      simp only [hlookup, Option.bind_some, hi, Option.some_or] at hprimary
      obtain rfl := Option.some.inj hprimary
      exact .inr ⟨dp, cd, hlinked⟩

/-- Primaries stay what they are. -/
theorem Merging.relinked_primary (h : Merging n all new s)
    {links : List (DescriptorId × Identity)} (hlinks : links ⊆ s.aliasLinks)
    (hds : Relinked s links ds) (hp : IsPrimary s.registry.descriptors p dp) :
    ∃ dp', IsPrimary ds p dp' ∧ traits dp' = traits dp := by
  have hnone : links.lookup p = none := by
    by_contra hsome
    obtain ⟨identity, hidentity⟩ := Option.ne_none_iff_exists'.mp hsome
    obtain ⟨cd, hcd, halias, -, hid⟩ := h.asked _ (hlinks (mem_of_lookup_eq_some hidentity))
    obtain ⟨i, d, hi, -, hmade⟩ := h.placed cd hcd
    obtain rfl := Option.some.inj (hi.symm.trans hid)
    obtain rfl := Option.some.inj (hmade.found.symm.trans hp.found)
    have hboth := hmade.isAlias.symm.trans hp.not_alias
    rw [halias] at hboth
    cases hboth
  have hget := hds p
  rw [hp.found, Option.map_some, Option.map_some, hnone] at hget
  obtain ⟨dp', hdp', heq⟩ := Option.map_eq_some_iff.mp hget
  have hsame : traits dp' = traits dp := heq
  obtain ⟨hprimary, halias, hexposed, hconcrete, -⟩ := eq_of_traits hsame
  refine ⟨dp', ⟨hdp', hprimary.trans hp.primary, halias.trans hp.not_alias, ?_⟩, hsame⟩
  rw [hexposed, hconcrete, hp.concrete]

/-- A linked alias does not expose the concrete type, and a new primary is alone before the links
    are set. -/
theorem Merging.exposedType_ne (h : Merging n all new s) (hlinkable : Linkable new)
    (hlinked : LinkedTo n new s id d p dp cd) {i : DescriptorId} {d' : Descriptor}
    (hi : s.registry.descriptors[i]? = some d') (hp : d'.primaryDescriptor = some p) :
    d'.exposedType ≠ d.exposedType := by
  obtain rfl := h.fresh i p d' hi hp hlinked.after
  obtain rfl := Option.some.inj (hi.symm.trans hlinked.primary.found)
  intro htype
  refine hlinkable.apart cd hlinked.mem hlinked.isAlias ?_
  rw [← hlinked.concrete, htype]
  exact (congrArg Entry.typeName hlinked.madeFor.entry).symm

/-- Two aliases of one primary that expose one type are made for one contribution. -/
theorem LinkedTo.unique (hlinkable : Linkable new)
    (hlinked : LinkedTo n new s id d p dp cd) {i : DescriptorId} {d' dp' : Descriptor}
    {cd' : ContributedDescriptor} (hlinked' : LinkedTo n new s i d' p dp' cd')
    (htype : d'.exposedType = d.exposedType) : i = id := by
  obtain rfl := Option.some.inj (hlinked.primary.found.symm.trans hlinked'.primary.found)
  have hidentity := hlinkable.unique cd hlinked.mem cd' hlinked'.mem hlinked.isAlias
    hlinked'.isAlias ?_ (hlinked'.concrete.symm.trans hlinked.concrete)
    (hlinked'.name.symm.trans hlinked.name) (hlinked'.lifetime.symm.trans hlinked.lifetime)
  · have hsame := hlinked'.lookup
    rw [hidentity, hlinked.lookup] at hsame
    exact (Option.some.inj hsame).symm
  · have hexposed := congrArg Entry.typeName hlinked.madeFor.entry
    have hexposed' := congrArg Entry.typeName hlinked'.madeFor.entry
    simp only [entryOf, contributedEntry, htype] at hexposed hexposed'
    exact hexposed'.symm.trans hexposed

/-- The links make families of the table. -/
theorem Merging.families_relinked (h : Merging n all new s) (hlinkable : Linkable new)
    {links : List (DescriptorId × Identity)} (hlinks : links ⊆ s.aliasLinks)
    (hds : Relinked s links ds) : Families ds := by
  refine ⟨fun i d' q hi hq => ?_, fun i i' d₁ d₂ q hi hi' hq hq' htype => ?_⟩
  -- A primary of before, or the one that a link names; both agree with the descriptor.
  · obtain ⟨d, hd, hsame, hcases⟩ := h.relinked_cases hlinkable hlinks hds hi hq
    obtain ⟨-, -, -, hconcrete, hname, hlifetime, -⟩ := eq_of_traits hsame
    have hprimary : ∃ dp, IsPrimary s.registry.descriptors q dp ∧
        dp.concreteType = d.concreteType ∧ dp.name = d.name ∧ dp.lifetime = d.lifetime := by
      rcases hcases with hold | ⟨dp, cd, hlinked⟩
      · exact h.families.primary i d q hd hold
      · have hfound := List.mem_of_getElem? hlinked.primary.found
        refine ⟨dp, hlinked.primary, ?_, ?_, ?_⟩
        · rw [← hlinked.primary.concrete]
          refine TypeInterning.nameOf_injective h.interned.indexed.types
            (h.interned.indexed.exposed dp hfound) hlinked.madeFor.interned ?_
          rw [hlinked.concrete, hlinked.madeFor.concrete]
        · refine NameInterning.nameOf_injective h.interned.indexed.names
            (h.interned.named dp hfound) (h.interned.named d (List.mem_of_getElem? hd)) ?_
          rw [hlinked.name]
          exact (congrArg Entry.beanName hlinked.madeFor.entry).symm
        · rw [hlinked.lifetime]
          exact (congrArg Entry.lifetime hlinked.madeFor.entry).symm
    obtain ⟨dp, hdp, hrest⟩ := hprimary
    obtain ⟨dp', hdp', hkept⟩ := h.relinked_primary hlinks hds hdp
    obtain ⟨-, -, -, hconcrete', hname', hlifetime', -⟩ := eq_of_traits hkept
    refine ⟨dp', hdp', ?_, ?_, ?_⟩
    · rw [hconcrete', hconcrete]
      exact hrest.1
    · rw [hname', hname]
      exact hrest.2.1
    · rw [hlifetime', hlifetime]
      exact hrest.2.2
  · obtain ⟨d₁', hd₁, hsame₁, hcases₁⟩ := h.relinked_cases hlinkable hlinks hds hi hq
    obtain ⟨d₂', hd₂, hsame₂, hcases₂⟩ := h.relinked_cases hlinkable hlinks hds hi' hq'
    obtain ⟨-, -, hexposed₁, -⟩ := eq_of_traits hsame₁
    obtain ⟨-, -, hexposed₂, -⟩ := eq_of_traits hsame₂
    have htype' : d₂'.exposedType = d₁'.exposedType := hexposed₂.symm.trans (htype.trans hexposed₁)
    -- Two descriptors of one type under one primary: by what was there before, or by the links.
    rcases hcases₁ with hold₁ | ⟨dp₁, cd₁, hlinked₁⟩ <;>
      rcases hcases₂ with hold₂ | ⟨dp₂, cd₂, hlinked₂⟩
    · exact h.families.unique i i' d₁' d₂' q hd₁ hd₂ hold₁ hold₂ htype'
    · exact absurd htype'.symm (h.exposedType_ne hlinkable hlinked₂ hd₁ hold₁)
    · exact absurd htype' (h.exposedType_ne hlinkable hlinked₁ hd₂ hold₂)
    · exact hlinked₁.unique hlinkable hlinked₂ htype'

/-! ## The start -/

/-- The table consists of families and of orphans, which these contributions have left. -/
structure Grouped (all : List ContributedDescriptor) (r : Registry) : Prop where
  families : Families r.descriptors
  orphans : ∀ d ∈ r.descriptors, IsOrphan d → ∃ cd ∈ all, cd.isExposedAlias = true ∧
    r.entryOf d = contributedEntry cd

theorem Grouped.merging (h : Grouped all r) (hr : r.Interned) :
    Merging r.descriptors.length all [] { registry := r } := by
  refine ⟨hr, h.families, le_rfl, fun id p d hid hp hn => ?_, rfl, nofun, nofun, nofun,
    List.nodup_nil, h.orphans⟩
  obtain ⟨dp, hdp, -⟩ := h.families.primary id d p hid hp
  exact absurd (List.getElem?_eq_some_iff.mp hdp.found).1 (not_lt_of_ge hn)

/-- Phase 1 merges the new contributions, or some of them if it fails. -/
theorem Grouped.mergeContributions (h : Grouped (newContributions [] r.pending) r)
    (hr : r.Interned) (hdiscovered : Discovered H r.pending) :
    ∃ new, new <+: newContributions [] r.pending ∧
      Merging r.descriptors.length (newContributions [] r.pending) new
        (forEach mergeContribution r.pending { registry := r }).state ∧
      ((forEach mergeContribution r.pending { registry := r }).failure = none →
        new = newContributions [] r.pending) := by
  -- The induction is over what has been merged; that it all comes from `r.pending` is known only in
  -- the end.
  have hmerged : ∀ cds, cds <+: r.pending →
      (forEach mergeContribution cds { registry := r }).failure = none →
        Merging r.descriptors.length (newContributions [] r.pending) (newContributions [] cds)
          (forEach mergeContribution cds { registry := r }).state := by
    intro cds hcds hok
    have hsub : newContributions [] cds <+: newContributions [] r.pending := by
      obtain ⟨more, hmore⟩ := hcds
      exact hmore ▸ newContributions_append [] cds more
    have hsteps := merged_induction
      (Q := fun new s => s.identityMap.map Prod.fst = new.map ContributedDescriptor.identity ∧
        (new ⊆ newContributions [] r.pending →
          Merging r.descriptors.length (newContributions [] r.pending) new s))
      (fun _ _ hs => hs.1) ?_ ⟨rfl, fun _ => h.merging hr⟩ hok
    · exact hsteps.2 hsub.subset
    · intro new s cd hcd hs hnew
      refine ⟨?_, fun hall => ?_⟩
      · change (s.identityMap ++ [(cd.identity, _)]).map Prod.fst = _
        rw [List.map_append, hs.1, List.map_append]
        rfl
      · have hmem := hall (List.mem_append_right _ List.mem_cons_self)
        have hold := hs.2 fun cd' hcd' => hall (List.mem_append_left _ hcd')
        refine hold.mergeNew hmem (fun hp => ?_) hnew
        rw [hdiscovered.primary cd (mem_of_mem_newContributions hmem) hp]
  cases hfail : (forEach mergeContribution r.pending { registry := r }).failure with
  | none => exact ⟨_, List.prefix_rfl, hmerged _ List.prefix_rfl hfail, fun _ => rfl⟩
  -- A merge that fails stops behind a prefix of the contributions.
  | some e =>
    obtain ⟨pre, hpre, hok, hstate⟩ := forEach_prefix (g := mergeContribution)
      (fun _ _ _ he => mergeContribution_of_fail he) r.pending { registry := r }
    obtain ⟨more, hmore⟩ := hpre
    refine ⟨newContributions [] pre, ?_, hstate ▸ hmerged pre ⟨more, hmore⟩ hok, nofun⟩
    exact hmore ▸ newContributions_append [] pre more

/-- Phases 1 and 1.5. -/
theorem Grouped.mergeAll (h : Grouped (newContributions [] r.pending) r) (hr : r.Interned)
    (hdiscovered : Discovered H r.pending) :
    ∃ new, Merging r.descriptors.length (newContributions [] r.pending) new
        (mergeAll { registry := r }).state ∧
      ((Registry.mergeAll { registry := r }).failure = none →
        new = newContributions [] r.pending) := by
  obtain ⟨new, -, hmerging, hall⟩ := h.mergeContributions hr hdiscovered
  have hpending := forEach_mergeContribution_pendingRuntimeSingletons r.pending { registry := r }
  have hnames := (forEach_mergeContribution r.pending (mergedFrom_nil r) hr).1.pending
  refine ⟨new, ?_, fun hok => hall (andThen_failure_eq_none.mp hok).1⟩
  refine andThen_invariant (P := fun s => Merging r.descriptors.length
    (newContributions [] r.pending) new s) hmerging fun s hs => ?_
  have hstep := forEach_invariant (P := fun s' => Merging r.descriptors.length
    (newContributions [] r.pending) new s' ∧ s'.registry.nameInterning = s.registry.nameInterning)
    (g := Registry.mergePendingSingleton)
    (fun s' pb (hpb : pb ∈ s.registry.pendingRuntimeSingletons) hs' =>
      ⟨hs'.1.mergePendingSingleton ?_, ?_⟩) ⟨hs, rfl⟩
  · exact hstep.1
  · rw [hs'.2]
    exact hs.interned.pending pb hpb
  · simp only [Registry.mergePendingSingleton]
    split_ifs <;> exact hs'.2

/-- The loop of phase 2 does not change what tells the families. -/
theorem forEach_linkFactory_traits (links : List (DescriptorId × Identity)) (s : StartState) :
    (forEach linkFactory links s).state.registry.descriptors.map traits =
        s.registry.descriptors.map traits ∧
      (forEach linkFactory links s).state.identityMap = s.identityMap ∧
      (forEach linkFactory links s).state.aliasLinks = s.aliasLinks := by
  refine forEach_invariant (P := fun s' : StartState =>
    s'.registry.descriptors.map traits = s.registry.descriptors.map traits ∧
      s'.identityMap = s.identityMap ∧ s'.aliasLinks = s.aliasLinks) (fun s' link _ hs' => ?_)
    ⟨rfl, rfl, rfl⟩
  unfold linkFactory
  split
  · exact hs'
  · next factory _ =>
    have hkept := map_modify_of_eq (g := traits) (f := fun d =>
      { d with factoryMethodDescriptor := some factory }) (fun _ => rfl)
      s'.registry.descriptors link.1
    exact ⟨hkept.trans hs'.1, hs'.2⟩

/-- Phases 2 and 2.5 set the links of aliases, or some of them if they fail. -/
theorem Merging.linkAll (h : Merging n all new s) :
    ∃ links, links ⊆ s.aliasLinks ∧ Relinked s links (linkAll s).state.registry.descriptors ∧
      ((Registry.linkAll s).failure = none → links = s.aliasLinks) := by
  obtain ⟨htraits, hidentities, haliases⟩ :=
    forEach_linkFactory_traits s.factoryLinks (clearPendingSingletons s)
  set t := (forEach linkFactory s.factoryLinks (clearPendingSingletons s)).state with ht
  have hget : ∀ i : DescriptorId,
      t.registry.descriptors[i]?.map traits = s.registry.descriptors[i]?.map traits := by
    intro i
    have hmap := congrArg (fun l => l[i]?) htraits
    simp only [List.getElem?_map] at hmap
    exact hmap
  -- After a prefix of the links.
  have hrelinked : ∀ links, links <+: s.aliasLinks →
      (forEach linkAlias links t).failure = none →
        Relinked s links (forEach linkAlias links t).state.registry.descriptors := by
    intro links hpre hok i
    have hnodup := h.nodup.sublist (hpre.sublist.map Prod.fst)
    obtain ⟨ds, hds, -, hlinked⟩ := forEach_link linkAlias_of_ok hnodup hok
    rw [hds]
    change ds[i]?.map traits = _
    rw [← hget i, hlinked, hidentities, Option.map_map, Option.map_map]
    refine congrArg (fun f => Option.map f _) (funext fun d => ?_)
    change traits _ = _
    have hsame : (clearPendingSingletons s).identityMap = s.identityMap := rfl
    simp only [Function.comp, hsame]
    cases (links.lookup i).bind fun identity => s.identityMap.lookup identity <;> rfl
  rw [Registry.linkAll]
  cases hfactories : (forEach linkFactory s.factoryLinks (clearPendingSingletons s)).failure with
  | some e =>
    rw [andThen_of_fail hfactories, hfactories]
    exact ⟨[], List.nil_subset _, hrelinked [] List.nil_prefix rfl, (by rintro ⟨⟩)⟩
  | none =>
    rw [andThen_of_ok hfactories, haliases]
    change ∃ links, links ⊆ s.aliasLinks ∧
      Relinked s links (forEach linkAlias s.aliasLinks t).state.registry.descriptors ∧ _
    cases hfail : (forEach linkAlias s.aliasLinks t).failure with
    | none => exact ⟨_, List.Subset.refl _, hrelinked _ List.prefix_rfl hfail, fun _ => rfl⟩
    | some e =>
      obtain ⟨pre, hpre, hok, hstate⟩ := forEach_prefix (g := linkAlias)
        (fun s link e he => linkAlias_of_fail he) s.aliasLinks t
      exact ⟨pre, hpre.subset, hstate ▸ hrelinked pre hpre hok,
        fun hnone => absurd (hfail.symm.trans hnone) (Option.some_ne_none e)⟩

/-- What a descriptor of the linked table has been before. -/
theorem Relinked.exists_before {links : List (DescriptorId × Identity)} (h : Relinked s links ds)
    (hd : d ∈ ds) : ∃ d' ∈ s.registry.descriptors, d'.isExposedAlias = d.isExposedAlias ∧
      (d.primaryDescriptor = none → d'.primaryDescriptor = none) ∧
      ∀ r, entryOf r d = entryOf r d' := by
  obtain ⟨i, hi⟩ := List.mem_iff_getElem?.mp hd
  have hget := h i
  rw [hi, Option.map_some, Option.map_map] at hget
  obtain ⟨d', hd', heq⟩ := Option.map_eq_some_iff.mp hget.symm
  refine ⟨d', List.mem_of_getElem? hd', (congrArg Descriptor.isExposedAlias heq :), fun hnone => ?_,
    fun r => (congrArg r.entryOf heq :).symm⟩
  have hprimary := congrArg Descriptor.primaryDescriptor heq
  exact (Option.or_eq_none_iff.mp (hprimary.trans hnone)).2

/-- An alias that has been linked. -/
theorem Merging.exists_linked (h : Merging n all new s) (hlinkable : Linkable new)
    (hds : Relinked s s.aliasLinks ds) (hcd : cd ∈ new) (halias : cd.isExposedAlias = true) :
    ∃ d ∈ ds, d.primaryDescriptor ≠ none ∧ s.registry.entryOf d = contributedEntry cd := by
  obtain ⟨p, -, -, hidentity, -⟩ := hlinkable.aliased cd hcd halias
  obtain ⟨id, hid, hlink⟩ := h.noted cd hcd halias _ hidentity
  obtain ⟨d, target, -, cd', htarget, hlinked⟩ := h.exists_linkedTo hlinkable hlink
  obtain ⟨i, d', hi, -, hmade⟩ := h.placed cd hcd
  obtain rfl := Option.some.inj (hid.symm.trans hi)
  have hget := hds id
  rw [hmade.found, Option.map_some, Option.map_some, (lookup_eq_some_iff_mem h.nodup).mpr hlink,
    Option.bind_some, htarget, Option.some_or] at hget
  obtain ⟨d'', hd'', heq⟩ := Option.map_eq_some_iff.mp hget
  refine ⟨d'', List.mem_of_getElem? hd'', ?_, ?_⟩
  · have hprimary := congrArg Descriptor.primaryDescriptor heq
    exact ne_of_eq_of_ne (hprimary :) nofun
  · exact (congrArg s.registry.entryOf heq :).trans hmade.entry

/-- Phases 1 to 2.5 make families of the contributions, and link all of their aliases if they
    succeed. -/
theorem Grouped.mergeAndLink (h : Grouped (newContributions [] r.pending) r) (hr : r.Interned)
    (hdiscovered : Discovered H r.pending) (hapart : Apart r.pending) :
    Grouped (newContributions [] r.pending) (mergeAndLink { registry := r }).state.registry ∧
      ((Registry.mergeAndLink { registry := r }).failure = none →
        ∀ cd ∈ newContributions [] r.pending, cd.isExposedAlias = true →
          ∃ d ∈ (Registry.mergeAndLink { registry := r }).state.registry.descriptors,
            d.primaryDescriptor ≠ none ∧
            (Registry.mergeAndLink { registry := r }).state.registry.entryOf d =
              contributedEntry cd) := by
  obtain ⟨new, hmerging, hall⟩ := h.mergeAll hr hdiscovered
  rw [Registry.mergeAndLink]
  -- If the merge fails, nothing is linked.
  cases hfail : (Registry.mergeAll { registry := r }).failure with
  | some e =>
    rw [andThen_of_fail hfail]
    exact ⟨⟨hmerging.families, hmerging.orphans⟩,
      fun hnone => absurd (hfail.symm.trans hnone) (Option.some_ne_none e)⟩
  | none =>
    rw [andThen_of_ok hfail]
    obtain rfl := hall hfail
    have hconsistent := ((mergeAll_interned hr).2.2.2.1.mp hfail).consistent
    have hlinkable := hdiscovered.linkable hapart hconsistent
    obtain ⟨links, hlinks, hrelinked, hcomplete⟩ := hmerging.linkAll
    obtain ⟨-, htypes, hnames⟩ := linkAll_entries (Registry.mergeAll { registry := r }).state
    have hentry : ∀ d, (Registry.linkAll (Registry.mergeAll
        { registry := r }).state).state.registry.entryOf d =
          (Registry.mergeAll { registry := r }).state.registry.entryOf d := by
      intro d
      rw [entryOf, htypes, hnames, entryOf]
    refine ⟨⟨hmerging.families_relinked hlinkable hlinks hrelinked, fun d hd horphan => ?_⟩,
      fun hok cd hcd halias => ?_⟩
    -- Links keep the entries, so an orphan is one that was there before.
    · obtain ⟨d', hd', hsame, hnone, hentries⟩ := hrelinked.exists_before hd
      rw [hentry, hentries]
      exact hmerging.orphans d' hd' ⟨hsame.trans horphan.1, hnone horphan.2⟩
    · rw [hcomplete hok] at hrelinked
      obtain ⟨d, hd, hprimary, hmade⟩ := hmerging.exists_linked hlinkable hrelinked hcd halias
      exact ⟨d, hd, hprimary, (hentry d).trans hmade⟩

end Registry

end Ctorium
