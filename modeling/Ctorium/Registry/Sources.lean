import Mathlib.Data.List.Find
import Ctorium.Registry.Choice
import Ctorium.Registry.Entries

/-!
# What the descriptors come from

The identifiers of descriptors, types and names are those of the order in which the
start meets them. The *source* of a descriptor is what it has been made from: a
contribution, a bound instance, or the context itself. For a start that succeeds, this
module describes in these terms

* the table: one descriptor for each contribution with a new identity, then one for each
  binding, then the context bean (`Merged.table`);
* the links from aliases to primaries and from products to their factory methods, which
  are those that the contributions ask for (`Merged.primaryLink`, `Merged.factoryLink`);
* what is interned: a type is found under its `std::type_index` if it is the first one of
  its qualified name (`TypeInterning.lookup_internAll`).
-/

namespace Ctorium

open Attempt

/-! ## Interning a list -/

/-- The first type with this qualified name. -/
def firstType (types : List CppType) (typeName : String) : Option CppType :=
  types.find? fun t => t.name == typeName

/-- The type that is found under its `std::type_index`: it was the first one of its name when
    it was interned. -/
def foundType (types : List CppType) (index : ℕ) : Option CppType :=
  types.find? fun t => t.index == index && firstType types t.name == some t

namespace TypeInterning

def internAll (ti : TypeInterning) (types : List CppType) : TypeInterning :=
  types.foldl (fun ti t => (ti.internByName t).2) ti

/-- The table holds the types, which have been interned in this order. -/
structure Holds (ti : TypeInterning) (types : List CppType) : Prop where
  valid : ti.Valid
  startup : ti.frozen = false
  overflow : ti.overflowIndexToId = []
  names : ∀ typeName, typeName ∈ ti.allNames ↔ ∃ t ∈ types, t.name = typeName
  found : ∀ index, (ti.lookupByTypeIndex index).map ti.nameOf =
    (foundType types index).map CppType.name

variable {ti : TypeInterning} {types : List CppType}

theorem firstType_eq_none_iff {typeName : String} :
    firstType types typeName = none ↔ ¬∃ t ∈ types, t.name = typeName := by
  simp [firstType, List.find?_eq_none]

/-- A further type does not change which type of the list is the first one of its name. -/
theorem firstType_append_of_mem {t : CppType} (ht : t ∈ types) (type : CppType) :
    firstType (types ++ [type]) t.name = firstType types t.name := by
  obtain ⟨u, hu⟩ := Option.ne_none_iff_exists'.mp fun hnone =>
    firstType_eq_none_iff.mp hnone ⟨t, ht, rfl⟩
  rw [firstType, List.find?_append, ← firstType, hu]
  rfl

theorem foundType_append (types : List CppType) (type : CppType) (index : ℕ) :
    foundType (types ++ [type]) index = (foundType types index).or
      (if type.index = index ∧ firstType types type.name = none then some type else none) := by
  have hold : types.find? (fun t => t.index == index &&
      firstType (types ++ [type]) t.name == some t) = foundType types index := by
    refine List.find?_congr fun t ht => ?_
    rw [firstType_append_of_mem ht]
  rw [foundType, List.find?_append, hold]
  cases hfound : foundType types index with
  | some t => rfl
  | none =>
    rw [Option.none_or, Option.none_or, List.find?_singleton]
    refine if_congr ?_ rfl rfl
    cases hfirst : firstType types type.name with
    | none => simp [firstType, List.find?_append, show types.find? _ = none from hfirst]
    | some t =>
      -- If it were found, it would have been there before.
      simp only [reduceCtorEq, and_false, iff_false, Bool.and_eq_true, beq_iff_eq, not_and]
      intro hindex hself
      have ht : t = type := by
        simpa [firstType, List.find?_append, show types.find? _ = some t from hfirst] using hself
      have hmem := List.mem_of_find?_eq_some hfirst
      subst ht
      exact List.find?_eq_none.mp hfound t hmem (by simp [hindex, hfirst])

theorem Holds.internByName (h : ti.Holds types) (type : CppType) :
    (ti.internByName type).2.Holds (types ++ [type]) := by
  have hvalid := h.valid.internByName type
  have hmem : ∀ typeName, (∃ t ∈ types ++ [type], t.name = typeName) ↔
      typeName ∈ ti.allNames ∨ typeName = type.name := by
    intro typeName
    rw [eq_comm (a := typeName)]
    simp only [List.mem_append, List.mem_singleton, or_and_right, exists_or, exists_eq_left,
      h.names]
  -- The name is known and nothing changes, or the type is the first one of its name.
  rcases internByName_cases h.valid type with ⟨hsame, hlt, hname⟩ | ⟨hid, hnew, hfrozen, hnames, -⟩
  · have hknown : type.name ∈ ti.allNames := by
      rw [← hname, nameOf, List.getD_eq_getElem _ _ (length_allNames ▸ hlt)]
      exact List.getElem_mem _
    rw [hsame]
    refine ⟨h.valid, h.startup, h.overflow, fun typeName => ?_, fun index => ?_⟩
    · rw [hmem, or_iff_left_of_imp]
      rintro rfl
      exact hknown
    · have hfirst : firstType types type.name ≠ none := fun hnone =>
        firstType_eq_none_iff.mp hnone ((h.names _).mp hknown)
      rw [h.found, foundType_append, if_neg fun hand => hfirst hand.2, Option.or_none]
  · have hfirst : firstType types type.name = none :=
      firstType_eq_none_iff.mpr fun hex => hnew ((h.names _).mpr hex)
    have hoverflow : (ti.internByName type).2.overflowIndexToId = [] :=
      (overflowIndexToId_internByName h.startup type).trans h.overflow
    refine ⟨hvalid, hfrozen.trans h.startup, hoverflow, fun typeName => ?_, fun index => ?_⟩
    · rw [hmem, hnames, List.mem_append, List.mem_singleton]
    · have hold := h.found index
      rw [lookupByTypeIndex_internByName_of_new h.valid (fun _ => h.overflow) hnew,
        foundType_append]
      cases hlookup : ti.lookupByTypeIndex index with
      | some id =>
        rw [hlookup, Option.map_some] at hold
        obtain ⟨t, ht, hname⟩ := Option.map_eq_some_iff.mp hold.symm
        rw [ht, Option.some_or, Option.some_or, Option.map_some, Option.map_some, hname,
          nameOf_internByName h.valid (h.valid.found index id hlookup)]
      | none =>
        rw [hlookup, Option.map_none] at hold
        rw [Option.map_eq_none_iff.mp hold.symm, Option.none_or, Option.none_or, ← hid]
        by_cases hindex : type.index = index
        · rw [if_pos hindex, if_pos ⟨hindex, hfirst⟩, Option.map_some, Option.map_some,
            nameOf_internByName_self h.valid]
        · rw [if_neg hindex, if_neg fun hand => hindex hand.1]
          rfl

theorem Holds.internAll (h : ti.Holds types) (more : List CppType) :
    (ti.internAll more).Holds (types ++ more) := by
  induction more generalizing ti types with
  | nil =>
    rw [List.append_nil]
    exact h
  | cons t more ih =>
    rw [List.append_cons]
    exact ih (h.internByName t)

theorem holds_empty : ({} : TypeInterning).Holds [] :=
  ⟨valid_empty, rfl, rfl, by simp [allNames], fun _ => rfl⟩

end TypeInterning

namespace NameInterning

/-- The table holds the names, next to the empty one. -/
structure Holds (ni : NameInterning) (names : List String) : Prop where
  valid : ni.Valid
  mem : ∀ beanName, beanName ∈ ni.idToName ↔ beanName = "" ∨ beanName ∈ names

variable {ni : NameInterning} {names : List String} {beanName : String}

theorem holds_empty : ({} : NameInterning).Holds [] := ⟨⟨by simp, rfl⟩, by simp⟩

theorem Holds.intern (h : ni.Holds names) (beanName : String) :
    (ni.intern beanName).2.Holds (names ++ [beanName]) := by
  refine ⟨h.valid.intern beanName, fun other => ?_⟩
  rcases intern_cases h.valid beanName with ⟨hsame, hlt, hname⟩ | ⟨-, -, hnames⟩
  · have hknown : beanName ∈ ni.idToName := by
      rw [← hname, nameOf, List.getD_eq_getElem _ _ hlt]
      exact List.getElem_mem _
    rw [hsame, List.mem_append, List.mem_singleton, ← or_assoc, ← h.mem, or_iff_left_of_imp]
    rintro rfl
    exact hknown
  · rw [hnames, List.mem_append, h.mem, List.mem_append, or_assoc]

theorem Holds.lookup_eq_none_iff (h : ni.Holds names) :
    ni.lookup beanName = none ↔ ¬(beanName = "" ∨ beanName ∈ names) := by
  rw [← h.mem, lookup]
  split_ifs with hempty
  · exact iff_of_false nofun (not_not_intro ((h.mem _).mpr (.inl hempty)))
  · exact List.idxOf?_eq_none_iff

end NameInterning

/-! ## Sources and links -/

/-- In a list whose keys do not repeat, the lookup finds what is there. -/
theorem lookup_eq_some_iff_mem {α β : Type*} [BEq α] [LawfulBEq α] {l : List (α × β)} {a : α}
    {b : β} (h : (l.map Prod.fst).Nodup) : l.lookup a = some b ↔ (a, b) ∈ l := by
  induction l with
  | nil => exact iff_of_false nofun List.not_mem_nil
  | cons p l ih =>
    obtain ⟨hp, hl⟩ := List.nodup_cons.mp h
    rw [List.lookup_cons, List.mem_cons]
    by_cases ha : a = p.1
    · -- The key is that of the first pair, so it is not in the rest.
      have hnot : (a, b) ∉ l := fun hmem => hp (ha ▸ List.mem_map_of_mem hmem)
      simp only [ha, BEq.rfl, Option.some.injEq]
      rw [← ha, or_iff_left hnot, Prod.ext_iff, eq_comm]
      exact (and_iff_right ha).symm
    · rw [beq_false_of_ne ha, ih hl, or_iff_right fun heq => ha (congrArg Prod.fst heq)]

/-- The lookup of a position. -/
theorem lookup_zipIdx {α : Type*} (xs : List α) (i : ℕ) :
    (xs.zipIdx.map Prod.swap).lookup i = xs[i]? := by
  have hnodup : ((xs.zipIdx.map Prod.swap).map Prod.fst).Nodup := by
    rw [List.map_map]
    change (xs.zipIdx.map Prod.snd).Nodup
    rw [List.zipIdx_map_snd]
    exact List.nodup_range'
  refine Option.ext fun x => (lookup_eq_some_iff_mem hnodup).trans ?_
  rw [← List.mk_mem_zipIdx_iff_getElem?, List.mem_map]
  exact ⟨fun ⟨p, hp, heq⟩ => by rwa [← Prod.swap_swap p, heq] at hp, fun hx => ⟨_, hx, rfl⟩⟩

/-- What a descriptor has been made from. -/
inductive Source
  | contributed (identity : Identity)
  | bound (object : Addr)
  | context
  deriving DecidableEq, Repr

namespace Registry

namespace StartState

/-- The sources of the descriptors that the start has made. -/
def sources (s : StartState) : List (DescriptorId × Source) :=
  s.identityMap.map (fun p => (p.2, .contributed p.1)) ++
    s.runtimeBound.map (fun rb => (rb.descId, .bound rb.boundInstance)) ++
      (s.registry.beanContextDescId.map fun id => (id, .context)).toList

def sourceOf (s : StartState) (id : DescriptorId) : Option Source := s.sources.lookup id

def withDescriptors (s : StartState) (ds : List Descriptor) : StartState :=
  { s with registry := { s.registry with descriptors := ds } }

/-- The source of a descriptor that the descriptor of a contribution is linked to. -/
def link (s : StartState) (target : Descriptor → Option DescriptorId) (identity : Identity) :
    Option Source := do
  let id ← s.identityMap.lookup identity
  let d ← s.registry.descriptors[id]?
  s.sourceOf (← target d)

/-- The primary that an alias stands for. A primary stands for itself. -/
def primaryLink (s : StartState) (identity : Identity) : Option Source :=
  s.link Descriptor.primaryDescriptor identity

/-- The factory method that makes a product. -/
def factoryLink (s : StartState) (identity : Identity) : Option Source :=
  s.link Descriptor.factoryMethodDescriptor identity

end StartState

/-- The primary that a contribution asks for. -/
def askedPrimary (cd : ContributedDescriptor) : Option Identity :=
  if cd.isExposedAlias then cd.aliasOfPrimaryIdentity else none

/-- The links that are noted when contributions are merged in this order. -/
def noted (ask : ContributedDescriptor → Option Identity) (new : List ContributedDescriptor) :
    List (DescriptorId × Identity) :=
  new.zipIdx.filterMap fun p => (ask p.1).map fun identity => (p.2, identity)

variable {ask : ContributedDescriptor → Option Identity} {new : List ContributedDescriptor}
  {cd : ContributedDescriptor} {s : StartState}

theorem noted_append (ask : ContributedDescriptor → Option Identity)
    (new : List ContributedDescriptor) (cd : ContributedDescriptor) :
    noted ask (new ++ [cd]) =
      noted ask new ++ ((ask cd).map fun identity => (new.length, identity)).toList := by
  rw [noted, List.zipIdx_append, List.filterMap_append, ← noted]
  cases hask : ask cd <;> simp [hask]

theorem mem_noted {i : DescriptorId} {identity : Identity} :
    (i, identity) ∈ noted ask new ↔ new[i]?.bind ask = some identity := by
  simp only [noted, List.mem_filterMap, Prod.exists, List.mk_mem_zipIdx_iff_getElem?,
    Option.map_eq_some_iff, Prod.mk.injEq, Option.bind_eq_some_iff]
  constructor
  · rintro ⟨cd, j, hcd, _, hask, rfl, rfl⟩
    exact ⟨cd, hcd, hask⟩
  · rintro ⟨cd, hcd, hask⟩
    exact ⟨cd, i, hcd, identity, hask, rfl, rfl⟩

/-- The links of the contributions, one by one. -/
theorem nodup_noted (ask : ContributedDescriptor → Option Identity)
    (new : List ContributedDescriptor) : ((noted ask new).map Prod.fst).Nodup := by
  induction new using List.reverseRecOn with
  | nil => exact List.nodup_nil
  | append_singleton new cd ih =>
    rw [noted_append, List.map_append]
    refine List.nodup_append'.mpr ⟨ih, ?_, ?_⟩
    · cases ask cd <;> simp
    · intro i hi hnew
      obtain ⟨⟨j, identity⟩, hmem, rfl⟩ := List.mem_map.mp hi
      obtain ⟨cd', hcd', -⟩ := Option.bind_eq_some_iff.mp (mem_noted.mp hmem)
      have hlt := (List.getElem?_eq_some_iff.mp hcd').1
      cases hask : ask cd with
      | none => simp [hask] at hnew
      | some _ =>
        obtain rfl : j = new.length := by simpa [hask] using hnew
        exact lt_irrefl _ hlt

theorem lookup_noted (ask : ContributedDescriptor → Option Identity)
    (new : List ContributedDescriptor) (i : DescriptorId) :
    (noted ask new).lookup i = new[i]?.bind ask :=
  Option.ext fun _ => (lookup_eq_some_iff_mem (nodup_noted ask new)).trans mem_noted

/-! ## Phase 1 -/

/-- The types that a contribution interns. -/
def typesOf (cd : ContributedDescriptor) : List CppType := [cd.exposedType, cd.concreteType]

/-- The start has made descriptors for these contributions, and for nothing else. -/
structure Contributed (given : List String) (new : List ContributedDescriptor) (s : StartState) :
    Prop where
  length : s.registry.descriptors.length = new.length
  identities : s.identityMap = new.zipIdx.map fun p => (p.1.identity, p.2)
  distinct : (new.map ContributedDescriptor.identity).Nodup
  primaries : s.aliasLinks = noted askedPrimary new
  factories : s.factoryLinks = noted ContributedDescriptor.factoryMethodIdentity new
  links : s.registry.descriptors.map (fun d => (d.primaryDescriptor, d.factoryMethodDescriptor)) =
    new.zipIdx.map fun p => (if p.1.isExposedAlias then none else some p.2, none)
  types : s.registry.typeInterning.Holds (new.flatMap typesOf)
  names : s.registry.nameInterning.Holds (given ++ new.map ContributedDescriptor.beanName)
  bound : s.runtimeBound = []

variable {given : List String}

theorem Contributed.map_identity (h : Contributed given new s) :
    s.identityMap.map Prod.fst = new.map ContributedDescriptor.identity := by
  have hfirst := congrArg (List.map ContributedDescriptor.identity) (List.zipIdx_map_fst 0 new)
  rw [List.map_map] at hfirst
  rw [h.identities, List.map_map]
  exact hfirst

theorem Contributed.mergeNew (h : Contributed given new s)
    (hnew : cd.identity ∉ new.map ContributedDescriptor.identity) :
    Contributed given (new ++ [cd]) (mergeNew s cd) where
  length := by simp [Registry.mergeNew, appendCandidate, internContribution, withTypes,
    withNames, h.length]
  identities := by
    simp only [Registry.mergeNew, h.identities, h.length, List.zipIdx_append, List.map_append]
    simp
  distinct := by
    rw [List.map_append]
    exact List.nodup_append'.mpr ⟨h.distinct, List.nodup_singleton _, by simpa using hnew⟩
  primaries := by
    rw [noted_append, ← h.primaries, ← h.length]
    simp only [Registry.mergeNew, askedPrimary]
    cases cd.isExposedAlias <;> cases cd.aliasOfPrimaryIdentity <;> simp
  factories := by
    rw [noted_append, ← h.factories, ← h.length]
    simp only [Registry.mergeNew]
    cases cd.factoryMethodIdentity <;> simp
  links := by
    simp only [Registry.mergeNew, appendCandidate, internContribution, withTypes, withNames,
      List.map_append, h.links, List.zipIdx_append]
    simp [contributedDescriptor, h.length]
  types := by
    have hboth := (h.types.internByName cd.exposedType).internByName cd.concreteType
    rw [List.append_assoc] at hboth
    rw [List.flatMap_append]
    exact hboth
  names := by
    rw [List.map_append, ← List.append_assoc]
    exact h.names.intern cd.beanName
  bound := h.bound

theorem Contributed.merged (h : Contributed given new s) {cds : List ContributedDescriptor}
    (hok : (forEach mergeContribution cds s).failure = none) :
    Contributed given (new ++ newContributions (new.map ContributedDescriptor.identity) cds)
      (forEach mergeContribution cds s).state :=
  merged_induction (fun _ _ h => h.map_identity) (fun _ _ _ _ h hnew => h.mergeNew hnew) h hok

/-! ## Phase 1.5 -/

/-- The start has gone on from the state to merge these bindings. -/
structure Bound (s : StartState) (pbs : List PendingRuntimeSingleton) (s' : StartState) : Prop where
  identities : s'.identityMap = s.identityMap
  primaries : s'.aliasLinks = s.aliasLinks
  factories : s'.factoryLinks = s.factoryLinks
  types : s'.registry.typeInterning =
    s.registry.typeInterning.internAll (pbs.map PendingRuntimeSingleton.type)
  names : s'.registry.nameInterning = s.registry.nameInterning
  descriptors : ∃ ds, s'.registry.descriptors = s.registry.descriptors ++ ds ∧
    ds.length = pbs.length
  bound : s'.runtimeBound.map (fun rb => (rb.descId, rb.boundInstance)) =
    s.runtimeBound.map (fun rb => (rb.descId, rb.boundInstance)) ++
      (pbs.zipIdx s.registry.descriptors.length).map fun p => (p.2, p.1.boundInstance)

theorem bound_nil (s : StartState) : Bound s [] s :=
  ⟨rfl, rfl, rfl, rfl, rfl, ⟨[], (List.append_nil _).symm, rfl⟩, (List.append_nil _).symm⟩

/-- A binding that is merged becomes the last descriptor. -/
theorem mergePendingSingleton_of_ok {pb : PendingRuntimeSingleton}
    (hok : (mergePendingSingleton s pb).failure = none) :
    ∃ d typeId, (mergePendingSingleton s pb).state = { s with
      registry := (s.registry.withTypes
        (s.registry.typeInterning.internByName pb.type).2).appendCandidate d
      runtimeBound := s.runtimeBound ++
        [⟨s.registry.descriptors.length, pb.boundInstance, typeId⟩] } := by
  simp only [mergePendingSingleton] at hok ⊢
  split_ifs at hok ⊢
  · cases hok
  · exact ⟨_, _, rfl⟩

theorem Bound.cons {pb : PendingRuntimeSingleton} {pbs : List PendingRuntimeSingleton}
    {s' : StartState} (hpb : (mergePendingSingleton s pb).failure = none)
    (h : Bound (mergePendingSingleton s pb).state pbs s') : Bound s (pb :: pbs) s' := by
  obtain ⟨d, typeId, hstate⟩ := mergePendingSingleton_of_ok hpb
  rw [hstate] at h
  obtain ⟨ds, hds, hlength⟩ := h.descriptors
  refine ⟨h.identities, h.primaries, h.factories, h.types, h.names,
    ⟨d :: ds, hds.trans (List.append_cons _ _ _).symm, ?_⟩, h.bound.trans ?_⟩
  · rw [List.length_cons, List.length_cons, hlength]
  · simp [appendCandidate, withTypes]

theorem bound_forEach {pbs : List PendingRuntimeSingleton}
    (hok : (forEach mergePendingSingleton pbs s).failure = none) :
    Bound s pbs (forEach mergePendingSingleton pbs s).state := by
  induction pbs generalizing s with
  | nil => exact bound_nil s
  | cons pb pbs ih =>
    obtain ⟨hpb, hrest, heq⟩ := forEach_cons_eq_none hok
    rw [heq]
    exact (ih hrest).cons hpb

/-! ## Phases 2 and 2.5 -/

section Links

variable {f : StartState → DescriptorId × Identity → Attempt Failure StartState}
  {set : DescriptorId → Descriptor → Descriptor} {links : List (DescriptorId × Identity)}

/-- The loop of phase 2 or 2.5: each link finds its target, and is set at its descriptor. -/
theorem forEach_link
    (hf : ∀ s link, (f s link).failure = none →
    ∃ target, s.identityMap.lookup link.2 = some target ∧
      (f s link).state = { s with registry := s.registry.modifyDescriptor link.1 (set target) })
    (hnodup : (links.map Prod.fst).Nodup) (hok : (forEach f links s).failure = none) :
    ∃ ds, (forEach f links s).state = s.withDescriptors ds ∧
      (∀ link ∈ links, s.identityMap.lookup link.2 ≠ none) ∧
      ∀ i, ds[i]? = s.registry.descriptors[i]?.map fun d =>
        match (links.lookup i).bind fun identity => s.identityMap.lookup identity with
        | some target => set target d
        | none => d := by
  induction links generalizing s with
  | nil => exact ⟨s.registry.descriptors, rfl, nofun, fun i => by simp⟩
  | cons link links ih =>
    obtain ⟨hlink, hrest, heq⟩ := forEach_cons_eq_none hok
    obtain ⟨target, htarget, hstate⟩ := hf s link hlink
    obtain ⟨hnot, hnodup⟩ := List.nodup_cons.mp hnodup
    rw [hstate] at hrest heq
    obtain ⟨ds, hds, hfound, hget⟩ := ih hnodup hrest
    refine ⟨ds, (congrArg Attempt.state heq).trans hds, ?_, fun i => ?_⟩
    · intro link' hmem
      rcases List.mem_cons.mp hmem with rfl | hmem
      · rw [htarget]
        exact nofun
      · exact hfound link' hmem
    · rw [hget, modifyDescriptor, List.getElem?_modify, List.lookup_cons]
      by_cases hi : i = link.1
      · subst hi
        -- No later link belongs to this descriptor.
        have hlater : links.lookup link.1 = none := by
          by_contra hsome
          obtain ⟨identity, hlookup⟩ := Option.ne_none_iff_exists'.mp hsome
          have hmem := (lookup_eq_some_iff_mem hnodup).mp hlookup
          exact hnot (List.mem_map.mpr ⟨_, hmem, rfl⟩)
        simp [hlater, htarget, Function.comp_def]
      · simp [beq_false_of_ne hi, Ne.symm hi]

theorem linkFactory_of_ok (s : StartState) (link : DescriptorId × Identity)
    (hok : (linkFactory s link).failure = none) : ∃ target,
    s.identityMap.lookup link.2 = some target ∧ (linkFactory s link).state =
      { s with registry := s.registry.modifyDescriptor link.1 fun d =>
          { d with factoryMethodDescriptor := some target } } := by
  unfold linkFactory at hok ⊢
  cases hlookup : s.identityMap.lookup link.2 with
  | none => simp [hlookup] at hok
  | some target => exact ⟨target, rfl, rfl⟩

theorem linkAlias_of_ok (s : StartState) (link : DescriptorId × Identity)
    (hok : (linkAlias s link).failure = none) : ∃ target,
    s.identityMap.lookup link.2 = some target ∧ (linkAlias s link).state =
      { s with registry := s.registry.modifyDescriptor link.1 fun d =>
          { d with primaryDescriptor := some target } } := by
  unfold linkAlias at hok ⊢
  cases hlookup : s.identityMap.lookup link.2 with
  | none => simp [hlookup] at hok
  | some target => exact ⟨target, rfl, rfl⟩

/-- Phases 2 and 2.5 together. -/
theorem linkAll_of_ok (hok : (linkAll s).failure = none)
    (hfactories : (s.factoryLinks.map Prod.fst).Nodup)
    (haliases : (s.aliasLinks.map Prod.fst).Nodup) :
    ∃ ds, (linkAll s).state = (clearPendingSingletons s).withDescriptors ds ∧
      (∀ link, link ∈ s.factoryLinks ∨ link ∈ s.aliasLinks →
        s.identityMap.lookup link.2 ≠ none) ∧
      ∀ i : DescriptorId, ds[i]? = s.registry.descriptors[i]?.map fun d : Descriptor => { d with
        factoryMethodDescriptor := ((s.factoryLinks.lookup i).bind fun identity =>
          s.identityMap.lookup identity).or d.factoryMethodDescriptor
        primaryDescriptor := ((s.aliasLinks.lookup i).bind fun identity =>
          s.identityMap.lookup identity).or d.primaryDescriptor } := by
  obtain ⟨hfirst, hsecond⟩ := andThen_failure_eq_none.mp hok
  -- Factories first, then aliases; the links of one kind leave the field of the other alone.
  obtain ⟨ds₁, hds₁, hfound₁, hget₁⟩ := forEach_link linkFactory_of_ok hfactories hfirst
  have hlinked : (linkAll s).state = (forEach linkAlias s.aliasLinks
      (forEach linkFactory s.factoryLinks (clearPendingSingletons s)).state).state := by
    rw [linkAll, andThen_of_ok hfirst, hds₁]
    rfl
  rw [hds₁] at hsecond hlinked
  obtain ⟨ds₂, hds₂, hfound₂, hget₂⟩ := forEach_link linkAlias_of_ok haliases hsecond
  refine ⟨ds₂, hlinked.trans hds₂, fun link hlink => hlink.elim (hfound₁ link) (hfound₂ link),
    fun i => ?_⟩
  rw [hget₂]
  change ds₁[i]?.map _ = _
  rw [hget₁, Option.map_map]
  refine congrArg (fun f => Option.map f _) (funext fun d => ?_)
  simp only [Function.comp, clearPendingSingletons, StartState.withDescriptors]
  cases (s.factoryLinks.lookup i).bind fun identity => s.identityMap.lookup identity <;>
    cases (s.aliasLinks.lookup i).bind fun identity => s.identityMap.lookup identity <;> rfl

end Links

/-! ## The linked state -/

/-- The sources of the descriptors, in the order of the table. -/
def tableSources (new : List ContributedDescriptor) (pbs : List PendingRuntimeSingleton) :
    List Source :=
  new.map (fun cd => .contributed cd.identity) ++ pbs.map fun pb => .bound pb.boundInstance

/-- The start has merged these contributions and bindings, and has linked them. -/
structure Linked (given : List String) (new : List ContributedDescriptor)
    (pbs : List PendingRuntimeSingleton) (s : StartState) : Prop where
  length : s.registry.descriptors.length = new.length + pbs.length
  sources : s.identityMap.map (fun p => (p.2, Source.contributed p.1)) ++
    s.runtimeBound.map (fun rb => (rb.descId, .bound rb.boundInstance)) =
      (tableSources new pbs).zipIdx.map Prod.swap
  lookup : ∀ identity id, s.identityMap.lookup identity = some id ↔
    new[id]?.map ContributedDescriptor.identity = some identity
  primary : ∀ (id : DescriptorId) (cd : ContributedDescriptor), new[id]? = some cd →
    s.registry.descriptors[id]?.map
    Descriptor.primaryDescriptor = some (if cd.isExposedAlias then
      cd.aliasOfPrimaryIdentity.bind fun p => s.identityMap.lookup p else some id)
  factory : ∀ (id : DescriptorId) (cd : ContributedDescriptor), new[id]? = some cd →
    s.registry.descriptors[id]?.map
    Descriptor.factoryMethodDescriptor =
      some (cd.factoryMethodIdentity.bind fun f => s.identityMap.lookup f)
  found : ∀ cd ∈ new, ∀ identity, askedPrimary cd = some identity ∨
    cd.factoryMethodIdentity = some identity → s.identityMap.lookup identity ≠ none
  types : s.registry.typeInterning.Holds
    (new.flatMap typesOf ++ pbs.map PendingRuntimeSingleton.type)
  names : s.registry.nameInterning.Holds (given ++ new.map ContributedDescriptor.beanName)

theorem Contributed.lookup (h : Contributed given new s) (identity : Identity) (id : DescriptorId) :
    s.identityMap.lookup identity = some id ↔
      new[id]?.map ContributedDescriptor.identity = some identity := by
  rw [lookup_eq_some_iff_mem (h.map_identity ▸ h.distinct), h.identities, List.mem_map,
    Option.map_eq_some_iff]
  constructor
  · rintro ⟨⟨cd, i⟩, hmem, heq⟩
    obtain ⟨rfl, rfl⟩ := Prod.mk.inj heq
    exact ⟨cd, List.mk_mem_zipIdx_iff_getElem?.mp hmem, rfl⟩
  · rintro ⟨cd, hcd, rfl⟩
    exact ⟨(cd, id), List.mk_mem_zipIdx_iff_getElem?.mpr hcd, rfl⟩

theorem Contributed.sources (h : Contributed given new s) {pbs : List PendingRuntimeSingleton}
    {s' : StartState} (hbound : Bound s pbs s') :
    s'.identityMap.map (fun p => (p.2, Source.contributed p.1)) ++
      s'.runtimeBound.map (fun rb => (rb.descId, .bound rb.boundInstance)) =
        (tableSources new pbs).zipIdx.map Prod.swap := by
  have hruntime := congrArg (List.map fun p => (p.1, Source.bound p.2)) hbound.bound
  rw [List.map_map, h.bound, List.map_nil, List.nil_append, List.map_map, h.length] at hruntime
  rw [hbound.identities, h.identities, tableSources, List.zipIdx_append, List.map_append,
    List.map_map, List.zipIdx_map, List.zipIdx_map, List.map_map, List.map_map, List.length_map]
  refine congrArg₂ _ rfl ?_
  rw [Nat.zero_add]
  exact hruntime

/-- The links of a state that has merged contributions and bindings. -/
theorem Contributed.linked (h : Contributed given new s) {pbs : List PendingRuntimeSingleton}
    {s' : StartState} (hbound : Bound s pbs s') (hok : (linkAll s').failure = none) :
    Linked given new pbs (linkAll s').state := by
  have hfactoryLinks : s'.factoryLinks = noted ContributedDescriptor.factoryMethodIdentity new :=
    hbound.factories.trans h.factories
  have haliasLinks : s'.aliasLinks = noted askedPrimary new := hbound.primaries.trans h.primaries
  obtain ⟨ds, hstate, hfound, hget⟩ := linkAll_of_ok hok (hfactoryLinks ▸ nodup_noted _ new)
    (haliasLinks ▸ nodup_noted _ new)
  rw [hfactoryLinks, haliasLinks] at hfound hget
  simp only [lookup_noted] at hget
  obtain ⟨more, hmore, hlength⟩ := hbound.descriptors
  -- The descriptor of a contribution, before it is linked.
  have hbefore : ∀ (id : DescriptorId) (cd : ContributedDescriptor), new[id]? = some cd →
      ∃ d, s'.registry.descriptors[id]? = some d ∧
        d.primaryDescriptor = (if cd.isExposedAlias then none else some id) ∧
        d.factoryMethodDescriptor = none := by
    intro id cd hcd
    have hlink := congrArg (fun l => l[id]?) h.links
    simp only [List.getElem?_map, List.getElem?_zipIdx, hcd, Option.map_some, Nat.zero_add] at hlink
    obtain ⟨d, hd, heq⟩ := Option.map_eq_some_iff.mp hlink
    obtain ⟨hprimary, hfactory⟩ := Prod.mk.inj heq
    refine ⟨d, ?_, hprimary, hfactory⟩
    rw [hmore, List.getElem?_append_left (List.getElem?_eq_some_iff.mp hd).1, hd]
  have hwithin : ∀ cd ∈ new, ∀ identity, askedPrimary cd = some identity ∨
      cd.factoryMethodIdentity = some identity → s'.identityMap.lookup identity ≠ none := by
    intro cd hcd identity hask
    obtain ⟨i, hi⟩ := List.mem_iff_getElem?.mp hcd
    refine hfound (i, identity) (hask.symm.imp (fun hask => ?_) fun hask => ?_) <;>
      exact mem_noted.mpr (by rw [hi, Option.bind_some, hask])
  rw [hstate]
  refine ⟨?_, ?_, fun identity id => ?_, fun id cd hcd => ?_, fun id cd hcd => ?_, hwithin, ?_, ?_⟩
  · have hsame : ds.length = s'.registry.descriptors.length := by
      refine le_antisymm ?_ ?_
      · rw [← List.getElem?_eq_none_iff, hget, Option.map_eq_none_iff, List.getElem?_eq_none_iff]
      · rw [← List.getElem?_eq_none_iff, ← Option.map_eq_none_iff, ← hget,
          List.getElem?_eq_none_iff]
    change ds.length = _
    rw [hsame, hmore, List.length_append, h.length, hlength]
  · change s'.identityMap.map _ ++ s'.runtimeBound.map _ = _
    exact h.sources hbound
  · change s'.identityMap.lookup identity = some id ↔ _
    rw [hbound.identities]
    exact h.lookup identity id
  · obtain ⟨d, hd, hprimary, -⟩ := hbefore id cd hcd
    change ds[id]?.map _ = _
    rw [hget, hd, hcd]
    simp only [Option.map_some, Option.bind_some, askedPrimary, hprimary]
    split_ifs
    · rw [Option.or_none]
      rfl
    · rfl
  · obtain ⟨d, hd, -, hfactory⟩ := hbefore id cd hcd
    change ds[id]?.map _ = _
    rw [hget, hd, hcd]
    simp only [Option.map_some, Option.bind_some, hfactory, Option.or_none]
    rfl
  · change s'.registry.typeInterning.Holds _
    rw [hbound.types]
    exact h.types.internAll _
  · change s'.registry.nameInterning.Holds _
    rw [hbound.names]
    exact h.names

/-- Phases 1 to 2.5 of a first start. -/
theorem mergeAndLink_linked {r : Registry} (hds : r.descriptors = [])
    (htypes : r.typeInterning = {}) (hnames : r.nameInterning.Holds given)
    (hok : (mergeAndLink { registry := r }).failure = none) :
    Linked given (newContributions [] r.pending) r.pendingRuntimeSingletons
      (mergeAndLink { registry := r }).state := by
  obtain ⟨hmerge, hlink⟩ := andThen_failure_eq_none.mp hok
  obtain ⟨hcontributions, hsingletons⟩ := andThen_failure_eq_none.mp hmerge
  -- Nothing has been merged into the new registry.
  have hfresh : Contributed given [] { registry := r } := by
    refine ⟨?_, rfl, List.nodup_nil, rfl, rfl, ?_, ?_, ?_, rfl⟩
    · rw [hds]
      rfl
    · rw [hds]
      rfl
    · rw [htypes]
      exact TypeInterning.holds_empty
    · rw [List.map_nil, List.append_nil]
      exact hnames
  have hmerged := hfresh.merged hcontributions
  rw [List.nil_append] at hmerged
  have hbound := bound_forEach hsingletons
  rw [forEach_mergeContribution_pendingRuntimeSingletons] at hbound
  have hstate : (mergeAll { registry := r }).state = (forEach mergePendingSingleton
      r.pendingRuntimeSingletons
        (forEach mergeContribution r.pending { registry := r }).state).state := by
    rw [mergeAll, andThen_of_ok hcontributions, forEach_mergeContribution_pendingRuntimeSingletons]
  rw [mergeAndLink, andThen_of_ok hmerge]
  rw [hstate] at hlink ⊢
  exact hmerged.linked hbound hlink

/-! ## The end of the start -/

section Finish

variable {pbs : List PendingRuntimeSingleton} (h : Linked given new pbs s) (ctx : Addr)

include h

/-- The source of each descriptor. -/
theorem Linked.sourceOf (id : DescriptorId) : (finishStart (sortState s) ctx).sourceOf id =
    (tableSources new pbs ++ [.context])[id]? := by
  have hlength : (tableSources new pbs).length = s.registry.descriptors.length := by
    simp [tableSources, h.length]
  rw [← lookup_zipIdx, List.zipIdx_append, List.map_append, ← h.sources, Nat.zero_add, hlength]
  rfl

/-- The contribution of a descriptor that a link starts from. -/
theorem Linked.find?_eq (identity : Identity) :
    new.find? (fun cd => cd.identity == identity) =
      (s.identityMap.lookup identity).bind fun id => new[id]? := by
  cases hlookup : s.identityMap.lookup identity with
  | none =>
    refine List.find?_eq_none.mpr fun cd hcd heq => ?_
    obtain ⟨i, hi⟩ := List.mem_iff_getElem?.mp hcd
    have hsome := (h.lookup identity i).mpr (by rw [hi, Option.map_some, beq_iff_eq.mp heq])
    rw [hlookup] at hsome
    cases hsome
  | some id =>
    obtain ⟨cd, hcd, hidentity⟩ := Option.map_eq_some_iff.mp ((h.lookup identity id).mp hlookup)
    rw [Option.bind_some, hcd]
    obtain ⟨cd', hcd'⟩ : ∃ cd', new.find? (fun cd => cd.identity == identity) = some cd' :=
      Option.ne_none_iff_exists'.mp fun hnone =>
        List.find?_eq_none.mp hnone cd (List.mem_of_getElem? hcd) (beq_iff_eq.mpr hidentity)
    obtain ⟨j, hj⟩ := List.mem_iff_getElem?.mp (List.mem_of_find?_eq_some hcd')
    have hidentity' : cd'.identity = identity := by simpa using List.find?_some hcd'
    have hsame := (h.lookup identity j).mpr (by rw [hj, Option.map_some, hidentity'])
    rw [hlookup] at hsame
    obtain rfl := Option.some.inj hsame
    rw [hcd', ← hj, hcd]

/-- A link leads to the contribution with the identity that is asked for. -/
theorem Linked.sourceOf_lookup {identity : Identity}
    (hfound : s.identityMap.lookup identity ≠ none) :
    (s.identityMap.lookup identity).bind (finishStart (sortState s) ctx).sourceOf =
      some (.contributed identity) := by
  obtain ⟨id, hid⟩ := Option.ne_none_iff_exists'.mp hfound
  obtain ⟨cd, hcd, rfl⟩ := Option.map_eq_some_iff.mp ((h.lookup identity id).mp hid)
  have hlt := (List.getElem?_eq_some_iff.mp hcd).1
  rw [hid, Option.bind_some, h.sourceOf, tableSources, List.append_assoc,
    List.getElem?_append_left (by simpa using hlt), List.getElem?_map, hcd, Option.map_some]

/-- A link, by what the linked state says about the descriptors of contributions. -/
theorem Linked.link_eq {target : Descriptor → Option DescriptorId}
    (htarget : ∀ d slot, target { d with sessionSlot := slot } = target d) {identity : Identity}
    {answer : ContributedDescriptor → Option Source}
    (hanswer : ∀ (id : DescriptorId) (cd : ContributedDescriptor), new[id]? = some cd →
      cd.identity = identity → ∃ t, s.registry.descriptors[id]?.map target = some t ∧
        t.bind (finishStart (sortState s) ctx).sourceOf = answer cd) :
    (finishStart (sortState s) ctx).link target identity =
      (new.find? fun cd => cd.identity == identity).bind answer := by
  have hlink : (finishStart (sortState s) ctx).link target identity =
      (s.identityMap.lookup identity).bind fun id =>
        (finishStart (sortState s) ctx).registry.descriptors[id]?.bind fun d =>
          (target d).bind (finishStart (sortState s) ctx).sourceOf := rfl
  rw [hlink, h.find?_eq]
  cases hlookup : s.identityMap.lookup identity with
  | none => rfl
  | some id =>
    obtain ⟨cd, hcd, hidentity⟩ := Option.map_eq_some_iff.mp ((h.lookup identity id).mp hlookup)
    obtain ⟨t, ht, hsource⟩ := hanswer id cd hcd hidentity
    have hfinal :
        (finishStart (sortState s) ctx).registry.descriptors[id]?.map target = some t := by
      obtain ⟨d, hd, -⟩ := Option.map_eq_some_iff.mp ht
      have hlt : id < (s.registry.descriptors.map target).length := by
        simpa using (List.getElem?_eq_some_iff.mp hd).1
      rw [← List.getElem?_map, finishStart_map s ctx htarget, List.map_append,
        List.getElem?_append_left hlt, List.getElem?_map, ht]
    obtain ⟨d, hd, rfl⟩ := Option.map_eq_some_iff.mp hfinal
    rw [Option.bind_some, Option.bind_some, hd, hcd, Option.bind_some, Option.bind_some, hsource]

/-- The contribution that is asked for is the source of the descriptor found. -/
theorem Linked.bind_sourceOf {asked : Option Identity}
    (hfound : ∀ identity, asked = some identity → s.identityMap.lookup identity ≠ none) :
    (asked.bind fun identity => s.identityMap.lookup identity).bind
      (finishStart (sortState s) ctx).sourceOf = asked.map .contributed := by
  cases asked with
  | none => rfl
  | some identity => exact h.sourceOf_lookup ctx (hfound identity rfl)

/-- The primary of a contribution. -/
theorem Linked.primaryLink (identity : Identity) :
    (finishStart (sortState s) ctx).primaryLink identity =
      (new.find? fun cd => cd.identity == identity).bind fun cd =>
        if cd.isExposedAlias then cd.aliasOfPrimaryIdentity.map .contributed
        else some (.contributed cd.identity) := by
  refine h.link_eq ctx (fun _ _ => rfl) fun id cd hcd hidentity =>
    ⟨_, h.primary id cd hcd, ?_⟩
  split_ifs with halias
  · refine h.bind_sourceOf ctx fun asked hasked => ?_
    refine h.found cd (List.mem_of_getElem? hcd) asked (.inl ?_)
    rw [askedPrimary, if_pos halias, hasked]
  · have hid := (h.lookup cd.identity id).mpr (by rw [hcd, Option.map_some])
    have hfound : s.identityMap.lookup cd.identity ≠ none := by
      rw [hid]
      exact nofun
    have hsource := h.sourceOf_lookup ctx hfound
    rwa [hid] at hsource

/-- The factory method of a contribution. -/
theorem Linked.factoryLink (identity : Identity) :
    (finishStart (sortState s) ctx).factoryLink identity =
      (new.find? fun cd => cd.identity == identity).bind fun cd =>
        cd.factoryMethodIdentity.map .contributed :=
  h.link_eq ctx (fun _ _ => rfl) fun id cd hcd _ => ⟨_, h.factory id cd hcd,
    h.bind_sourceOf ctx fun asked hasked =>
      h.found cd (List.mem_of_getElem? hcd) asked (.inr hasked)⟩

/-- The types that the start interns, in their order. -/
theorem Linked.found_finishStart (index : ℕ) :
    ((finishStart (sortState s) ctx).registry.typeInterning.lookupByTypeIndex index).map
        (finishStart (sortState s) ctx).registry.typeInterning.nameOf =
      (foundType (new.flatMap typesOf ++ pbs.map PendingRuntimeSingleton.type ++
        [beanContextType]) index).map CppType.name :=
  (h.types.internByName beanContextType).found index

end Finish

end Registry

end Ctorium
