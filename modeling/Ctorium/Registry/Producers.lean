import Ctorium.Lib.StableInsert
import Ctorium.Registry.Sources

/-!
# Products of one factory

Phase 3.5 of the start looks for two products of one factory among the candidates of a
type and a name. In every start, also in one that comes after others have failed,

* contributions with different identities become different descriptors
  (`lookup_ne_of_identity_ne`);
* two products with different identities, of one factory and with one type name and
  bean name, are reported as a configuration error (`reports_products`).
-/

namespace Ctorium.Registry

open Attempt

variable {s : StartState} {cd : ContributedDescriptor}

/-- A new contribution is one of the contributions. -/
theorem mem_of_mem_newContributions {cds : List ContributedDescriptor} {seen : List Identity}
    (h : cd ∈ newContributions seen cds) : cd ∈ cds := by
  induction cds generalizing seen with
  | nil => exact h
  | cons first cds ih =>
    rw [newContributions] at h
    split_ifs at h
    · exact List.mem_cons_of_mem _ (ih h)
    · rcases List.mem_cons.mp h with rfl | h
      · exact List.mem_cons_self
      · exact List.mem_cons_of_mem _ (ih h)

/-- Every contribution has a first one with its identity. -/
theorem exists_mem_newContributions {cds : List ContributedDescriptor} {seen : List Identity}
    (hcd : cd ∈ cds) (hseen : cd.identity ∉ seen) :
    ∃ first ∈ newContributions seen cds, first.identity = cd.identity := by
  induction cds generalizing seen with
  | nil => exact absurd hcd List.not_mem_nil
  | cons head cds ih =>
    rw [newContributions]
    rcases List.mem_cons.mp hcd with rfl | hcd
    · rw [if_neg hseen]
      exact ⟨cd, List.mem_cons_self, rfl⟩
    · split_ifs with hhead
      · exact ih hcd hseen
      · by_cases hsame : cd.identity = head.identity
        · exact ⟨head, List.mem_cons_self, hsame.symm⟩
        · have hunseen : cd.identity ∉ seen ++ [head.identity] := by simp [hseen, hsame]
          obtain ⟨first, hfirst, heq⟩ := ih hcd hunseen
          exact ⟨first, List.mem_cons_of_mem _ hfirst, heq⟩

/-- The contributions that become descriptors have different identities. -/
theorem distinct_newContributions (seen : List Identity) (cds : List ContributedDescriptor) :
    ((newContributions seen cds).map ContributedDescriptor.identity).Nodup ∧
      ∀ cd ∈ newContributions seen cds, cd.identity ∉ seen := by
  induction cds generalizing seen with
  | nil => exact ⟨List.nodup_nil, List.forall_mem_nil _⟩
  | cons head cds ih =>
    rw [newContributions]
    split_ifs with hhead
    · exact ih seen
    · obtain ⟨hnodup, hunseen⟩ := ih (seen ++ [head.identity])
      have hapart : ∀ cd ∈ newContributions (seen ++ [head.identity]) cds,
          cd.identity ∉ seen ∧ cd.identity ≠ head.identity := fun cd hcd => by
        simpa using hunseen cd hcd
      refine ⟨List.nodup_cons.mpr ⟨fun hmem => ?_, hnodup⟩, fun cd hcd => ?_⟩
      · obtain ⟨cd, hcd, heq⟩ := List.mem_map.mp hmem
        exact (hapart cd hcd).2 heq
      · rcases List.mem_cons.mp hcd with rfl | hcd
        · exact hhead
        · exact (hapart cd hcd).1

/-! ## The descriptors of contributions -/

/-- The merge has made descriptors for these contributions, and has noted their links. The
    table may hold other descriptors, which failed starts have left. -/
structure Placed (new : List ContributedDescriptor) (s : StartState) : Prop where
  interned : s.registry.Interned
  identities : s.identityMap.map Prod.fst = new.map ContributedDescriptor.identity
  distinct : (s.identityMap.map Prod.snd).Nodup
  within : ∀ id ∈ s.identityMap.map Prod.snd, id < s.registry.descriptors.length
  factories : (s.factoryLinks.map Prod.fst).Nodup
  factoriesWithin : ∀ id ∈ s.factoryLinks.map Prod.fst, id < s.registry.descriptors.length
  aliases : (s.aliasLinks.map Prod.fst).Nodup
  aliasesWithin : ∀ id ∈ s.aliasLinks.map Prod.fst, id < s.registry.descriptors.length
  placed : ∀ cd ∈ new, ∃ id, s.identityMap.lookup cd.identity = some id ∧
    s.registry.entries[id]? = some (contributedEntry cd) ∧
    s.registry.descriptors[id]?.map
      (fun d => (d.lazy, d.primaryDescriptor, d.factoryMethodDescriptor)) =
        some (cd.lazy, if cd.isExposedAlias then none else some id, none) ∧
    s.factoryLinks.lookup id = cd.factoryMethodIdentity ∧ s.aliasLinks.lookup id = askedPrimary cd

variable {new : List ContributedDescriptor}

/-- A further link, of the descriptor that comes next. -/
theorem nodup_concat {links : List (DescriptorId × Identity)} {n : ℕ}
    (hnodup : (links.map Prod.fst).Nodup) (hwithin : ∀ id ∈ links.map Prod.fst, id < n)
    (identity : Identity) : ((links ++ [(n, identity)]).map Prod.fst).Nodup ∧
      ∀ id ∈ (links ++ [(n, identity)]).map Prod.fst, id < n + 1 := by
  rw [List.map_append, List.map_singleton]
  refine ⟨List.nodup_append'.mpr ⟨hnodup, List.nodup_singleton _, ?_⟩, fun id hid => ?_⟩
  · intro id hid hlast
    rw [List.mem_singleton.mp hlast] at hid
    exact lt_irrefl _ (hwithin _ hid)
  · rcases List.mem_append.mp hid with hid | hid
    · exact (hwithin id hid).trans (Nat.lt_succ_self n)
    · rw [List.mem_singleton.mp hid]
      exact Nat.lt_succ_self n

theorem mem_of_lookup_eq_some {α β : Type*} [BEq α] [LawfulBEq α] {l : List (α × β)} {a : α} {b : β}
    (h : l.lookup a = some b) : (a, b) ∈ l := by
  obtain ⟨l₁, l₂, rfl, -⟩ := List.lookup_eq_some_iff.mp h
  exact List.mem_append_right _ List.mem_cons_self

/-- No link of an earlier descriptor is that of the next one. -/
theorem lookup_eq_none_of_within {links : List (DescriptorId × Identity)} {n : ℕ}
    (hwithin : ∀ id ∈ links.map Prod.fst, id < n) : links.lookup n = none := by
  by_contra hsome
  obtain ⟨identity, hidentity⟩ := Option.ne_none_iff_exists'.mp hsome
  exact lt_irrefl _ (hwithin _ (List.mem_map_of_mem (mem_of_lookup_eq_some hidentity)))

/-- An earlier descriptor keeps its link. -/
theorem lookup_concat_of_lt {links : List (DescriptorId × Identity)} {id n : DescriptorId}
    (hlt : id < n) (identity : Identity) :
    (links ++ [(n, identity)]).lookup id = links.lookup id := by
  rw [List.lookup_append, List.lookup_cons, beq_false_of_ne hlt.ne]
  exact Option.or_none

theorem length_entries (r : Registry) : r.entries.length = r.descriptors.length :=
  List.length_map _

theorem Placed.mergeNew (h : Placed new s)
    (hnew : cd.identity ∉ new.map ContributedDescriptor.identity) :
    Placed (new ++ [cd]) (mergeNew s cd) := by
  obtain ⟨hinterned, hentries, -⟩ := h.interned.mergeNew cd
  have hds : (Registry.mergeNew s cd).registry.descriptors =
      s.registry.descriptors ++ [s.registry.contributedDescriptor cd] := rfl
  have hmap : (Registry.mergeNew s cd).identityMap =
      s.identityMap ++ [(cd.identity, s.registry.descriptors.length)] := rfl
  have hlength : (Registry.mergeNew s cd).registry.descriptors.length =
      s.registry.descriptors.length + 1 := by
    rw [hds, List.length_append, List.length_singleton]
  have hlater : ∀ {ids : List DescriptorId}, (∀ id ∈ ids, id < s.registry.descriptors.length) →
      ∀ id ∈ ids, id < s.registry.descriptors.length + 1 :=
    fun hids id hid => (hids id hid).trans (Nat.lt_succ_self _)
  have hfactories : ((Registry.mergeNew s cd).factoryLinks.map Prod.fst).Nodup ∧
      ∀ id ∈ (Registry.mergeNew s cd).factoryLinks.map Prod.fst,
        id < s.registry.descriptors.length + 1 := by
    simp only [Registry.mergeNew]
    split
    · exact nodup_concat h.factories h.factoriesWithin _
    · exact ⟨h.factories, hlater h.factoriesWithin⟩
  have haliases : ((Registry.mergeNew s cd).aliasLinks.map Prod.fst).Nodup ∧
      ∀ id ∈ (Registry.mergeNew s cd).aliasLinks.map Prod.fst,
        id < s.registry.descriptors.length + 1 := by
    simp only [Registry.mergeNew]
    split
    · exact nodup_concat h.aliases h.aliasesWithin _
    · exact ⟨h.aliases, hlater h.aliasesWithin⟩
  refine ⟨hinterned, ?_, ?_, ?_, hfactories.1, hlength ▸ hfactories.2, haliases.1,
    hlength ▸ haliases.2, fun cd' hcd' => ?_⟩
  · rw [hmap, List.map_append, h.identities, List.map_append]
    rfl
  · rw [hmap, List.map_append]
    refine List.nodup_append'.mpr ⟨h.distinct, List.nodup_singleton _, fun id hid hlast => ?_⟩
    have hlt := h.within id hid
    rw [List.mem_singleton.mp hlast] at hlt
    exact lt_irrefl _ hlt
  · rw [hmap, List.map_append, hlength]
    intro id hid
    rcases List.mem_append.mp hid with hid | hid
    · exact hlater h.within id hid
    · rw [List.mem_singleton.mp hid]
      exact Nat.lt_succ_self _
  · rw [hmap, hentries, hds, List.lookup_append]
    rcases List.mem_append.mp hcd' with hcd' | hcd'
    · -- An earlier contribution keeps its descriptor and its links.
      obtain ⟨id, hid, hentry, hfields, hfactory, halias⟩ := h.placed cd' hcd'
      have hlt : id < s.registry.descriptors.length := by
        rw [← length_entries]
        exact (List.getElem?_eq_some_iff.mp hentry).1
      refine ⟨id, by rw [hid]; rfl, ?_, ?_, ?_, ?_⟩
      · rw [List.getElem?_append_left (length_entries _ ▸ hlt), hentry]
      · rw [List.getElem?_append_left hlt, hfields]
      · rw [← hfactory]
        simp only [Registry.mergeNew]
        split
        · exact lookup_concat_of_lt hlt _
        · rfl
      · rw [← halias]
        simp only [Registry.mergeNew]
        split
        · exact lookup_concat_of_lt hlt _
        · rfl
    · obtain rfl := List.mem_singleton.mp hcd'
      have hnone : s.identityMap.lookup cd'.identity = none := by
        rw [lookup_eq_none_iff_not_mem, h.identities]
        exact hnew
      have hunlinked := lookup_eq_none_of_within h.factoriesWithin
      have hprimary := lookup_eq_none_of_within h.aliasesWithin
      refine ⟨s.registry.descriptors.length, by simp [hnone], ?_, by simp [contributedDescriptor],
        ?_, ?_⟩
      · rw [List.getElem?_append_right (length_entries _).le, length_entries]
        simp
      · simp only [Registry.mergeNew]
        split
        · next factory hasked => simp [List.lookup_append, hunlinked, hasked]
        · next hasked => rw [hunlinked, hasked]
      · simp only [Registry.mergeNew, askedPrimary]
        cases cd'.isExposedAlias <;> cases cd'.aliasOfPrimaryIdentity <;>
          simp [List.lookup_append, hprimary]

theorem Placed.merged (h : Placed new s) {cds : List ContributedDescriptor}
    (hok : (forEach mergeContribution cds s).failure = none) :
    Placed (new ++ newContributions (new.map ContributedDescriptor.identity) cds)
      (forEach mergeContribution cds s).state :=
  merged_induction (fun _ _ h => h.identities) (fun _ _ _ _ h hnew => h.mergeNew hnew) h hok

/-! ## The linked state -/

section Linked

variable {r : Registry}

/-- The later phases keep the identities. -/
theorem identityMap_mergeAndLink (r : Registry) :
    (mergeAndLink { registry := r }).state.identityMap =
      (forEach mergeContribution r.pending { registry := r }).state.identityMap := by
  let P (s : StartState) : Prop := s.identityMap =
    (forEach mergeContribution r.pending { registry := r }).state.identityMap
  have hbound : P (mergeAll { registry := r }).state := by
    refine andThen_invariant (P := P) rfl fun s hs => ?_
    refine forEach_invariant (P := P) (fun s pb _ hs => hs.symm.trans ?_ |>.symm) hs
    simp only [mergePendingSingleton]
    split <;> rfl
  refine andThen_invariant (P := P) hbound fun s hs => ?_
  refine andThen_invariant (P := P) ?_ fun s hs => ?_
  · refine forEach_invariant (P := P) (fun s link _ hs => hs.symm.trans ?_ |>.symm) hs
    unfold linkFactory
    split <;> rfl
  · refine forEach_invariant (P := P) (fun s link _ hs => hs.symm.trans ?_ |>.symm) hs
    unfold linkAlias
    split <;> rfl

/-- The descriptors of the contributions after phase 2.5. -/
theorem placed_mergeAndLink (h : r.Interned)
    (hok : (mergeAndLink { registry := r }).failure = none) :
    ((mergeAndLink { registry := r }).state.identityMap.map Prod.snd).Nodup ∧
      ∀ cd ∈ newContributions [] r.pending, ∃ id d,
        (mergeAndLink { registry := r }).state.identityMap.lookup cd.identity = some id ∧
        (mergeAndLink { registry := r }).state.registry.descriptors[id]? = some d ∧
        (mergeAndLink { registry := r }).state.registry.entryOf d = contributedEntry cd ∧
        d.lazy = cd.lazy ∧
        d.primaryDescriptor =
          (if cd.isExposedAlias then cd.aliasOfPrimaryIdentity.bind fun identity =>
          (mergeAndLink { registry := r }).state.identityMap.lookup identity else some id) ∧
        (d.factoryMethodDescriptor = cd.factoryMethodIdentity.bind fun identity =>
          (mergeAndLink { registry := r }).state.identityMap.lookup identity) ∧
        ∀ identity, cd.factoryMethodIdentity = some identity →
          (mergeAndLink { registry := r }).state.identityMap.lookup identity ≠ none := by
  obtain ⟨hmerge, hlink⟩ := andThen_failure_eq_none.mp hok
  obtain ⟨hcontributions, hsingletons⟩ := andThen_failure_eq_none.mp hmerge
  have hfresh : Placed [] { registry := r } :=
    ⟨h, rfl, List.nodup_nil, nofun, List.nodup_nil, nofun, List.nodup_nil, nofun, nofun⟩
  have hplaced := hfresh.merged hcontributions
  rw [List.nil_append, List.map_nil] at hplaced
  have hbound := bound_forEach hsingletons
  have hgrown := (forEach_mergePendingSingleton hplaced.interned
    fun pb hpb => hplaced.interned.pending pb hpb).2.2.1
  have hstate : (mergeAll { registry := r }).state = (forEach mergePendingSingleton
      (forEach mergeContribution r.pending
        { registry := r }).state.registry.pendingRuntimeSingletons
      (forEach mergeContribution r.pending { registry := r }).state).state := by
    rw [mergeAll, andThen_of_ok hcontributions]
  rw [← hstate] at hbound hgrown
  obtain ⟨more, hmore, -⟩ := hbound.descriptors
  obtain ⟨ds, hds, hfound, hget⟩ := linkAll_of_ok hlink (hbound.factories ▸ hplaced.factories)
    (hbound.primaries ▸ hplaced.aliases)
  have hentries := (linkAll_entries (mergeAll { registry := r }).state).1
  have hdescriptors : (linkAll (mergeAll { registry := r }).state).state.registry.descriptors =
      ds := by rw [hds]; rfl
  rw [identityMap_mergeAndLink, mergeAndLink, andThen_of_ok hmerge]
  refine ⟨hplaced.distinct, fun cd hcd => ?_⟩
  obtain ⟨id, hid, hentry, hfields, hasked, haliased⟩ := hplaced.placed cd hcd
  obtain ⟨d, hd, heq⟩ := Option.map_eq_some_iff.mp hfields
  obtain ⟨hlazy, hprimary, hnone⟩ : d.lazy = cd.lazy ∧ d.primaryDescriptor =
      (if cd.isExposedAlias then none else some id) ∧ d.factoryMethodDescriptor = none := by
    simpa using heq
  have hlt := (List.getElem?_eq_some_iff.mp hd).1
  have hlinked := hget id
  simp only [hmore, List.getElem?_append_left hlt, hd, hbound.factories, hasked,
    hbound.primaries, haliased, hbound.identities, hnone, Option.or_none,
      Option.map_some] at hlinked
  -- The links keep the entries, and the bindings come after them.
  have hfinal : (linkAll (mergeAll { registry := r }).state).state.registry.entries[id]? =
      some (contributedEntry cd) := by
    obtain ⟨es, hes⟩ := hgrown
    rw [hentries, ← hes, List.getElem?_append_left (by rwa [length_entries]), hentry]
  rw [Registry.entries, List.getElem?_map, hdescriptors, hlinked] at hfinal
  refine ⟨id, _, hid, hdescriptors ▸ hlinked, Option.some.inj hfinal, hlazy, ?_, rfl,
    fun identity hidentity => ?_⟩
  · cases halias : cd.isExposedAlias <;> simp [askedPrimary, halias, hprimary]
  refine hbound.identities ▸ hfound (id, identity) (.inl ?_)
  rw [hbound.factories]
  exact mem_of_lookup_eq_some (hasked.trans hidentity)

/-- The identities that have descriptors are those of the contributions. -/
theorem map_fst_mergeAndLink (hok : (mergeAndLink { registry := r }).failure = none) :
    (mergeAndLink { registry := r }).state.identityMap.map Prod.fst =
      (newContributions [] r.pending).map ContributedDescriptor.identity := by
  have hcontributions := (andThen_failure_eq_none.mp (andThen_failure_eq_none.mp hok).1).1
  let Q (new : List ContributedDescriptor) (s : StartState) : Prop :=
    s.identityMap.map Prod.fst = new.map ContributedDescriptor.identity
  have hnone : Q [] { registry := r } := rfl
  rw [identityMap_mergeAndLink]
  refine merged_induction (Q := Q) (fun _ _ h => h) (fun new s cd _ h _ => ?_) hnone
    hcontributions
  calc (mergeNew s cd).identityMap.map Prod.fst
      = s.identityMap.map Prod.fst ++ [cd.identity] := List.map_append
    _ = (new ++ [cd]).map ContributedDescriptor.identity := by rw [h, List.map_append]; rfl

/-- Contributions with different identities do not share a descriptor. -/
theorem lookup_ne_of_identity_ne (h : r.Interned)
    (hok : (mergeAndLink { registry := r }).failure = none) {identity identity' : Identity}
    (hne : identity ≠ identity') {id : DescriptorId}
    (hid : (mergeAndLink { registry := r }).state.identityMap.lookup identity = some id) :
    (mergeAndLink { registry := r }).state.identityMap.lookup identity' ≠ some id := by
  intro hid'
  have hsame := List.inj_on_of_nodup_map (placed_mergeAndLink h hok).1
    (mem_of_lookup_eq_some hid) (mem_of_lookup_eq_some hid') rfl
  exact hne (congrArg Prod.fst hsame)

/-- Two products of one factory under one key are found. -/
theorem factoryIds_not_nodup (h : r.Indexed) {id id' factory : DescriptorId} {d d' : Descriptor}
    (hne : id ≠ id') (hd : r.descriptors[id]? = some d) (hd' : r.descriptors[id']? = some d')
    (htype : d'.exposedType = d.exposedType) (hname : d'.name = d.name)
    (hproduct : d.origin = .factoryProduct) (hproduct' : d'.origin = .factoryProduct)
    (hfactory : d.factoryMethodDescriptor = some factory)
    (hfactory' : d'.factoryMethodDescriptor = some factory) :
    ¬(r.sortAllCandidates.factoryIds d.exposedType d.name).Nodup := by
  intro hnodup
  have hcandidates : ((r.sortAllCandidates.typeIndex.candidatesFor d.exposedType d.name).getD
      []).Perm (keyIds r.descriptors d.exposedType d.name) :=
    TypeIndex.candidatesFor_sortAllCandidates_perm.trans (h.inserted _ _)
  have hpairs := List.pairwise_filterMap.mp hnodup
  have hmem := hcandidates.mem_iff.mpr (mem_keyIds.mpr ⟨d, hd, rfl, rfl⟩)
  have hmem' := hcandidates.mem_iff.mpr (mem_keyIds.mpr ⟨d', hd', htype, hname⟩)
  have hvalue : (r.sortAllCandidates.descriptors[id]?.bind fun d =>
      if d.origin = .factoryProduct then d.factoryMethodDescriptor else none) = some factory := by
    change r.descriptors[id]?.bind _ = _
    rw [hd, Option.bind_some, if_pos hproduct, hfactory]
  have hvalue' : (r.sortAllCandidates.descriptors[id']?.bind fun d =>
      if d.origin = .factoryProduct then d.factoryMethodDescriptor else none) = some factory := by
    change r.descriptors[id']?.bind _ = _
    rw [hd', Option.bind_some, if_pos hproduct', hfactory']
  rcases hpairs.or_of_ne hmem hmem' hne with hapart | hapart
  · exact hapart factory hvalue factory hvalue' rfl
  · exact hapart factory hvalue' factory hvalue rfl

theorem validateProducers_ne_none {typeId : TypeId} (htype : typeId < r.typeInterning.size)
    {nameId : NameId} (hname : nameId < r.nameInterning.size)
    (hduplicate : ¬(r.factoryIds typeId nameId).Nodup) : r.validateProducers ≠ none := by
  intro hnone
  have htypes := List.findSome?_eq_none_iff.mp hnone typeId (List.mem_range.mpr htype)
  have hnames := List.findSome?_eq_none_iff.mp htypes nameId (List.mem_range.mpr hname)
  rw [duplicateProducers, if_neg hduplicate] at hnames
  cases hnames

/-- All failures of the phases of the start are configuration errors. -/
theorem merge_failure {ctx : Addr} {e : Failure} (h : (merge s ctx).failure = some e) :
    ∃ text, e = .configurationError text := by
  -- Phase by phase; each of them raises configuration errors only.
  let Q := fun e : Failure => ∃ text, e = .configurationError text
  have hmerge : ∀ s e, (mergeAll s).failure = some e → Q e := by
    intro s e he
    refine andThen_failure (Q := Q) (fun e he => forEach_failure (Q := Q) ?_ he)
      (fun s e he => forEach_failure (Q := Q) ?_ he) he
    · intro s cd e he
      unfold mergeContribution at he
      split at he
      · cases he
      · split at he
        · split_ifs at he
          · exact ⟨_, (Option.some.inj he).symm⟩
          · cases he
        · cases he
    · intro s pb e he
      simp only [mergePendingSingleton] at he
      split_ifs at he
      · exact ⟨_, (Option.some.inj he).symm⟩
      · cases he
  have hlink : ∀ s e, (linkAll s).failure = some e → Q e := by
    intro s e he
    refine andThen_failure (Q := Q) (fun e he => forEach_failure (Q := Q) ?_ he)
      (fun s e he => forEach_failure (Q := Q) ?_ he) he
    · intro s link e he
      unfold linkFactory at he
      split at he
      · exact ⟨_, (Option.some.inj he).symm⟩
      · cases he
    · intro s link e he
      unfold linkAlias at he
      split at he
      · exact ⟨_, (Option.some.inj he).symm⟩
      · cases he
  have hproducers : ∀ (r : Registry) e, r.validateProducers = some e → Q e := by
    intro r e he
    obtain ⟨typeId, -, he⟩ := List.exists_of_findSome?_eq_some he
    obtain ⟨nameId, -, he⟩ := List.exists_of_findSome?_eq_some he
    unfold duplicateProducers at he
    split_ifs at he
    exact ⟨_, (Option.some.inj he).symm⟩
  have hscoped : ∀ (r : Registry) e, r.validateScoped = some e → Q e := by
    intro r e he
    obtain ⟨cd, -, he⟩ := List.exists_of_findSome?_eq_some he
    obtain ⟨p, -, he⟩ := List.exists_of_findSome?_eq_some he
    unfold scopedViolation at he
    split at he
    · cases he
    · split_ifs at he <;> exact ⟨_, (Option.some.inj he).symm⟩
  refine andThen_failure (Q := Q) (fun e he => andThen_failure (Q := Q) (hmerge s) hlink he)
    (fun s e he => andThen_failure (Q := Q) (hproducers _) (fun s e he => ?_) he) h
  exact andThen_failure (Q := Q) (hscoped _) (fun _ _ he => by cases he) he

/-- Two products with different identities, of one factory and with one type name and bean
    name, are not started. -/
theorem merge_of_products (h : r.Interned) {cd cd' : ContributedDescriptor}
    (hcd : cd ∈ newContributions [] r.pending) (hcd' : cd' ∈ newContributions [] r.pending)
    (hne : cd.identity ≠ cd'.identity) (htype : cd'.exposedType.name = cd.exposedType.name)
    (hname : cd'.beanName = cd.beanName) (hproduct : cd.origin = .factoryProduct)
    (hproduct' : cd'.origin = .factoryProduct) {factory : Identity}
    (hfactory : cd.factoryMethodIdentity = some factory)
    (hfactory' : cd'.factoryMethodIdentity = some factory) (ctx : Addr) :
    (merge { registry := r } ctx).failure ≠ none := by
  intro hok
  obtain ⟨hlink, hproducers, -, -⟩ := merge_of_ok hok
  have hinterned := mergeAndLink_interned h
  obtain ⟨-, hplaced⟩ := placed_mergeAndLink h hlink
  obtain ⟨id, d, hid, hd, hentry, -, -, hlinked, hfound⟩ := hplaced cd hcd
  obtain ⟨id', d', hid', hd', hentry', -, -, hlinked', -⟩ := hplaced cd' hcd'
  -- The two products have descriptors of their own, under the same factory.
  have hids : id ≠ id' := by
    rintro rfl
    exact lookup_ne_of_identity_ne h hlink hne hid hid'
  have hmem := List.mem_of_getElem? hd
  have hmem' := List.mem_of_getElem? hd'
  have hsameType : d'.exposedType = d.exposedType := by
    refine (hinterned.typeName_entryOf_iff hmem' (hinterned.indexed.exposed d hmem)).mp ?_
    exact (congrArg Entry.typeName hentry').trans
      (htype.trans (congrArg Entry.typeName hentry).symm)
  have hsameName : d'.name = d.name := by
    refine (hinterned.beanName_entryOf_iff hmem' (hinterned.named d hmem)).mp ?_
    exact (congrArg Entry.beanName hentry').trans
      (hname.trans (congrArg Entry.beanName hentry).symm)
  obtain ⟨factoryId, hfactoryId⟩ := Option.ne_none_iff_exists'.mp (hfound factory hfactory)
  rw [hfactory, Option.bind_some, hfactoryId] at hlinked
  rw [hfactory', Option.bind_some, hfactoryId] at hlinked'
  refine validateProducers_ne_none
    (r := (mergeAndLink { registry := r }).state.registry.sortAllCandidates)
    (hinterned.indexed.exposed d hmem) (hinterned.named d hmem) ?_ hproducers
  exact factoryIds_not_nodup hinterned.indexed hids hd hd' hsameType hsameName
    ((congrArg Entry.origin hentry).trans hproduct)
    ((congrArg Entry.origin hentry').trans hproduct') hlinked hlinked'

end Linked

end Ctorium.Registry

namespace Ctorium.BeanContext

open Registry

variable {b : BeanContext}

/-- The start of a reachable context reports two products of one factory with one type name
    and bean name. -/
theorem reports_products (hb : b.Reachable) (hnot : b.core.started = false)
    (hfirst : b.core.beanContextDescId = none) {cd cd' : ContributedDescriptor}
    (hcd : cd ∈ newContributions [] b.core.pending)
    (hcd' : cd' ∈ newContributions [] b.core.pending) (hne : cd.identity ≠ cd'.identity)
    (htype : cd'.exposedType.name = cd.exposedType.name) (hname : cd'.beanName = cd.beanName)
    (hproduct : cd.origin = .factoryProduct) (hproduct' : cd'.origin = .factoryProduct)
    {factory : Identity} (hfactory : cd.factoryMethodIdentity = some factory)
    (hfactory' : cd'.factoryMethodIdentity = some factory) :
    ∃ text, b.start.failure = some (.configurationError text) := by
  rcases start_cases b.core b.self with ⟨hs, -⟩ | ⟨_, -, hid, -⟩ | ⟨-, -, heq⟩
  · rw [hnot] at hs
    cases hs
  · rw [hfirst] at hid
    cases hid
  · obtain ⟨e, he⟩ := Option.ne_none_iff_exists'.mp (merge_of_products hb.interned hcd hcd' hne
      htype hname hproduct hproduct' hfactory hfactory' b.self)
    obtain ⟨text, rfl⟩ := merge_failure he
    refine ⟨text, ?_⟩
    simp only [start, heq]
    exact he

end Ctorium.BeanContext
