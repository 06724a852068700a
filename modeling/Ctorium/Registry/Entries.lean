import Ctorium.Registry.FirstStart

/-!
# The entries of a registry

The identifiers of types and names depend on the order in which they were interned.
The *entry* of a descriptor says what it stands for in names: its exposed type, its
bean name, its priority, its lifetime and its origin. This module describes the calls
by what they do to the list of entries:

* bindings and merges append entries, everything else keeps them;
* phases 1 and 1.5 of the start succeed exactly if the pending contributions and
  singletons are `Mergeable`, and this depends on entries only (`mergeAll_interned`);
* all types and names that a reachable context refers to are interned
  (`Reachable.interned`).
-/

namespace Ctorium

open Attempt

/-- What a descriptor stands for. -/
structure Entry where
  typeName : String
  beanName : String
  priority : ℤ
  lifetime : Lifetime
  origin : Origin
  deriving DecidableEq, Repr

/-- The key of a candidate. -/
def Entry.key (e : Entry) : String × String × ℤ := (e.typeName, e.beanName, e.priority)

namespace NameInterning

variable {ni : NameInterning}

theorem size_le_intern (h : ni.Valid) (name : String) : ni.size ≤ (ni.intern name).2.size := by
  rcases intern_cases h name with ⟨hsame, -, -⟩ | ⟨-, -, hnames⟩
  · rw [hsame]
  · simp [size, hnames]

theorem intern_lt (h : ni.Valid) (name : String) :
    (ni.intern name).1 < (ni.intern name).2.size := by
  rcases intern_cases h name with ⟨hsame, hlt, -⟩ | ⟨hid, -, hnames⟩
  · rwa [hsame]
  · simp [size, hnames, hid]

theorem kUnnamed_lt (h : ni.Valid) : kUnnamed < ni.size := by
  have hhead := h.unnamed
  rw [size, kUnnamed]
  refine List.length_pos_of_ne_nil fun hnil => ?_
  rw [hnil] at hhead
  cases hhead

theorem nameOf_kUnnamed (h : ni.Valid) : ni.nameOf kUnnamed = "" := by
  have hhead := h.unnamed
  rw [nameOf, kUnnamed]
  cases hl : ni.idToName with
  | nil => rfl
  | cons a l => simp_all

theorem nameOf_injective (h : ni.Valid) {id id' : NameId} (hid : id < ni.size)
    (hid' : id' < ni.size)
    (heq : ni.nameOf id = ni.nameOf id') : id = id' := by
  rw [nameOf, nameOf, List.getD_eq_getElem _ _ hid, List.getD_eq_getElem _ _ hid'] at heq
  exact (h.nodup.getElem_inj_iff).mp heq

theorem nameOf_eq_empty_iff (h : ni.Valid) {id : NameId} (hid : id < ni.size) :
    ni.nameOf id = "" ↔ id = kUnnamed := by
  constructor
  · intro hempty
    exact nameOf_injective h hid (kUnnamed_lt h) (hempty.trans (nameOf_kUnnamed h).symm)
  · rintro rfl
    exact nameOf_kUnnamed h

/-- The lookup of a name. -/
theorem lookup_eq_some_iff (h : ni.Valid) {name : String} {id : NameId} :
    ni.lookup name = some id ↔ id < ni.size ∧ ni.nameOf id = name := by
  unfold lookup
  split_ifs with hempty
  · subst hempty
    constructor
    · rintro ⟨rfl⟩
      exact ⟨kUnnamed_lt h, nameOf_kUnnamed h⟩
    · rintro ⟨hlt, hname⟩
      rw [(nameOf_eq_empty_iff h hlt).mp hname]
  · rw [List.idxOf?_eq_some_iff]
    constructor
    · rintro ⟨hlt, hget, -⟩
      exact ⟨hlt, by rw [nameOf, List.getD_eq_getElem _ _ hlt, hget]⟩
    · rintro ⟨hlt, hname⟩
      rw [nameOf, List.getD_eq_getElem _ _ hlt] at hname
      refine ⟨hlt, hname, fun j hj hget => ?_⟩
      have heq := (h.nodup.getElem_inj_iff).mp (hget.trans hname.symm)
      omega

end NameInterning

namespace Registry

variable {r : Registry} {s : StartState} {d : Descriptor}

def entryOf (r : Registry) (d : Descriptor) : Entry where
  typeName := r.typeInterning.nameOf d.exposedType
  beanName := r.nameInterning.nameOf d.name
  priority := d.priority
  lifetime := d.lifetime
  origin := d.origin

/-- The entries of all descriptors, in the order of the table. -/
def entries (r : Registry) : List Entry := r.descriptors.map r.entryOf

def contributedEntry (cd : ContributedDescriptor) : Entry where
  typeName := cd.exposedType.name
  beanName := cd.beanName
  priority := cd.priority
  lifetime := cd.lifetime
  origin := cd.origin

/-- The entry of a bound instance. -/
def boundEntry (typeName beanName : String) (priority : ℤ) (lifetime : Lifetime) : Entry where
  typeName := typeName
  beanName := beanName
  priority := priority
  lifetime := lifetime
  origin := .runtimeBinding

/-- The entry that a pending singleton will have. -/
def pendingEntry (r : Registry) (pb : PendingRuntimeSingleton) : Entry :=
  boundEntry pb.type.name (r.nameInterning.nameOf pb.nameId) pb.priority .singleton

def pendingEntries (r : Registry) : List Entry := r.pendingRuntimeSingletons.map r.pendingEntry

/-- The entry of the context bean. -/
def contextEntry : Entry := boundEntry beanContextType.name "" 0 .singleton

/-! ## Interned registries -/

/-- All types and names that a registry refers to are interned. -/
structure Interned (r : Registry) : Prop where
  indexed : r.Indexed
  named : ∀ d ∈ r.descriptors, d.name < r.nameInterning.size
  pending : ∀ pb ∈ r.pendingRuntimeSingletons, pb.nameId < r.nameInterning.size

/-- The registry has the interning tables of another one, or more. -/
structure Extends (r r' : Registry) : Prop where
  types : ∀ id < r.typeInterning.size, r'.typeInterning.nameOf id = r.typeInterning.nameOf id
  names : ∀ id < r.nameInterning.size, r'.nameInterning.nameOf id = r.nameInterning.nameOf id
  typesSize : r.typeInterning.size ≤ r'.typeInterning.size
  namesSize : r.nameInterning.size ≤ r'.nameInterning.size

theorem Extends.refl (r : Registry) : Extends r r :=
  ⟨fun _ _ => rfl, fun _ _ => rfl, le_rfl, le_rfl⟩

theorem Extends.trans {r' r'' : Registry} (h : Extends r r') (h' : Extends r' r'') :
    Extends r r'' where
  types id hid := (h'.types id (hid.trans_le h.typesSize)).trans (h.types id hid)
  names id hid := (h'.names id (hid.trans_le h.namesSize)).trans (h.names id hid)
  typesSize := h.typesSize.trans h'.typesSize
  namesSize := h.namesSize.trans h'.namesSize

theorem Extends.entryOf {r' : Registry} (h : Extends r r') (hr : r.Interned)
    (hd : d ∈ r.descriptors) : r'.entryOf d = r.entryOf d := by
  rw [Registry.entryOf, h.types _ (hr.indexed.exposed d hd), h.names _ (hr.named d hd),
    Registry.entryOf]

/-- The entries of the same descriptors in larger interning tables. -/
theorem Extends.entries {r' : Registry} (h : Extends r r') (hr : r.Interned)
    (hds : r'.descriptors = r.descriptors) : r'.entries = r.entries := by
  rw [Registry.entries, Registry.entries, hds]
  exact List.map_congr_left fun d hd => h.entryOf hr hd

theorem Extends.pendingEntries {r' : Registry} (h : Extends r r') (hr : r.Interned)
    (hpbs : r'.pendingRuntimeSingletons = r.pendingRuntimeSingletons) :
    r'.pendingEntries = r.pendingEntries := by
  rw [Registry.pendingEntries, Registry.pendingEntries, hpbs]
  refine List.map_congr_left fun pb hpb => ?_
  rw [pendingEntry, h.names _ (hr.pending pb hpb), pendingEntry]

theorem pendingEntries_congr {r' : Registry} (hnames : r'.nameInterning = r.nameInterning)
    (hpbs : r'.pendingRuntimeSingletons = r.pendingRuntimeSingletons) :
    r'.pendingEntries = r.pendingEntries := by
  rw [pendingEntries, pendingEntries, hpbs]
  refine List.map_congr_left fun pb _ => ?_
  rw [pendingEntry, hnames, pendingEntry]

theorem Interned.extends_names (h : r.Interned) (name : String) :
    Extends r (r.withNames (r.nameInterning.intern name).2) :=
  ⟨fun _ _ => rfl, fun _ hid => NameInterning.nameOf_intern h.indexed.names hid, le_rfl,
    NameInterning.size_le_intern h.indexed.names name⟩

theorem Interned.extends_types (h : r.Interned) (type : CppType) :
    Extends r (r.withTypes (r.typeInterning.internByName type).2) :=
  ⟨fun _ hid => TypeInterning.nameOf_internByName h.indexed.types hid, fun _ _ => rfl,
    TypeInterning.size_le_internByName h.indexed.types type, le_rfl⟩

theorem Interned.withNames (h : r.Interned) (name : String) :
    (r.withNames (r.nameInterning.intern name).2).Interned := by
  have hle := NameInterning.size_le_intern h.indexed.names name
  exact ⟨h.indexed.internName name, fun d hd => (h.named d hd).trans_le hle,
    fun pb hpb => (h.pending pb hpb).trans_le hle⟩

theorem Interned.withTypes (h : r.Interned) (type : CppType) :
    (r.withTypes (r.typeInterning.internByName type).2).Interned :=
  ⟨h.indexed.internType type, h.named, h.pending⟩

/-- The entry of a descriptor tells its type and its name. -/
theorem Interned.typeName_entryOf_iff (h : r.Interned) (hd : d ∈ r.descriptors) {typeId : TypeId}
    (htype : typeId < r.typeInterning.size) :
    (r.entryOf d).typeName = r.typeInterning.nameOf typeId ↔ d.exposedType = typeId :=
  ⟨TypeInterning.nameOf_injective h.indexed.types (h.indexed.exposed d hd) htype,
    congrArg r.typeInterning.nameOf⟩

@[inherit_doc Interned.typeName_entryOf_iff]
theorem Interned.beanName_entryOf_iff (h : r.Interned) (hd : d ∈ r.descriptors) {nameId : NameId}
    (hname : nameId < r.nameInterning.size) :
    (r.entryOf d).beanName = r.nameInterning.nameOf nameId ↔ d.name = nameId :=
  ⟨NameInterning.nameOf_injective h.indexed.names (h.named d hd) hname,
    congrArg r.nameInterning.nameOf⟩

/-- An append keeps the registry interned, and adds the entry of the descriptor. -/
theorem Interned.appendCandidate (h : r.Interned) (htype : d.exposedType < r.typeInterning.size)
    (hname : d.name < r.nameInterning.size) : (r.appendCandidate d).Interned := by
  refine ⟨h.indexed.appendCandidate htype, fun e he => ?_, h.pending⟩
  rcases List.mem_append.mp he with he | he
  · exact h.named e he
  · rw [List.mem_singleton.mp he]
    exact hname

theorem entries_appendCandidate (r : Registry) (d : Descriptor) :
    (r.appendCandidate d).entries = r.entries ++ [r.entryOf d] := by
  change (r.descriptors ++ [d]).map r.entryOf = r.descriptors.map r.entryOf ++ [r.entryOf d]
  rw [List.map_append]
  rfl

/-- Changes of the descriptors that keep the entries. -/
theorem entries_congr {r' : Registry} (htypes : r'.typeInterning = r.typeInterning)
    (hnames : r'.nameInterning = r.nameInterning)
    (hds : r'.descriptors.map (fun d => (d.exposedType, d.name, d.priority, d.lifetime, d.origin)) =
      r.descriptors.map fun d => (d.exposedType, d.name, d.priority, d.lifetime, d.origin)) :
    r'.entries = r.entries := by
  have hmap : ∀ r : Registry, r.entries =
      (r.descriptors.map fun d => (d.exposedType, d.name, d.priority, d.lifetime, d.origin)).map
        fun p => ⟨r.typeInterning.nameOf p.1, r.nameInterning.nameOf p.2.1, p.2.2.1, p.2.2.2.1,
          p.2.2.2.2⟩ := fun r => by
    rw [List.map_map]
    rfl
  rw [hmap, hmap, htypes, hnames, hds]

/-! ## Phase 1 -/

theorem Interned.internContribution (h : r.Interned) (cd : ContributedDescriptor) :
    (r.internContribution cd).Interned :=
  ((h.withTypes cd.exposedType).withTypes cd.concreteType).withNames cd.beanName

theorem Interned.extends_contribution (h : r.Interned) (cd : ContributedDescriptor) :
    Extends r (r.internContribution cd) :=
  ((h.extends_types cd.exposedType).trans
    ((h.withTypes cd.exposedType).extends_types cd.concreteType)).trans
    (((h.withTypes cd.exposedType).withTypes cd.concreteType).extends_names cd.beanName)

/-- The entry of a merged contribution. -/
theorem Interned.entryOf_contributed (h : r.Interned) (cd : ContributedDescriptor) :
    (r.internContribution cd).entryOf (r.contributedDescriptor cd) = contributedEntry cd := by
  have htypes := h.indexed.types.internByName cd.exposedType
  have htype : (r.internContribution cd).typeInterning.nameOf
      (r.contributedDescriptor cd).exposedType = cd.exposedType.name :=
    (TypeInterning.nameOf_internByName htypes
      (TypeInterning.internByName_lt h.indexed.types _)).trans
      (TypeInterning.nameOf_internByName_self h.indexed.types _)
  have hname : (r.internContribution cd).nameInterning.nameOf (r.contributedDescriptor cd).name =
      cd.beanName := NameInterning.nameOf_intern_self h.indexed.names _
  rw [entryOf, htype, hname]
  rfl

theorem Interned.mergeNew (h : s.registry.Interned) (cd : ContributedDescriptor) :
    (mergeNew s cd).registry.Interned ∧
      (mergeNew s cd).registry.entries = s.registry.entries ++ [contributedEntry cd] ∧
      Extends s.registry (mergeNew s cd).registry := by
  have htypes := h.indexed.types.internByName cd.exposedType
  have hext := h.extends_contribution cd
  refine ⟨?_, ?_, hext.types, hext.names, hext.typesSize, hext.namesSize⟩
  · exact (h.internContribution cd).appendCandidate
      ((TypeInterning.internByName_lt h.indexed.types _).trans_le
        (TypeInterning.size_le_internByName htypes _))
      (NameInterning.intern_lt h.indexed.names _)
  · refine (entries_appendCandidate _ _).trans ?_
    rw [hext.entries h rfl, h.entryOf_contributed]

/-- The contribution agrees with the first one of its identity. -/
def agreesWith (first cd : ContributedDescriptor) : Bool :=
  first.exposedType.name == cd.exposedType.name && first.beanName == cd.beanName &&
    first.lifetime == cd.lifetime

/-- All contributions agree with the first ones of their identities. -/
def consistentFrom (seen : List ContributedDescriptor) : List ContributedDescriptor → Bool
  | [] => true
  | cd :: cds =>
    match seen.find? fun first => first.identity == cd.identity with
    | none => consistentFrom (seen ++ [cd]) cds
    | some first => agreesWith first cd && consistentFrom seen cds

/-- The identities that have been merged lead to the entries of their contributions. -/
def MergedFrom (seen : List ContributedDescriptor) (s : StartState) : Prop :=
  ∀ identity, match seen.find? (fun first => first.identity == identity) with
    | none => s.identityMap.lookup identity = none
    | some first => ∃ id d, s.identityMap.lookup identity = some id ∧
        s.registry.descriptors[id]? = some d ∧ s.registry.entryOf d = contributedEntry first

theorem mergedFrom_nil (r : Registry) : MergedFrom [] { registry := r } := fun _ => rfl

theorem MergedFrom.mergeNew {seen : List ContributedDescriptor} (h : MergedFrom seen s)
    (hr : s.registry.Interned) (cd : ContributedDescriptor) :
    MergedFrom (seen ++ [cd]) (mergeNew s cd) := by
  intro identity
  have hmap : (Registry.mergeNew s cd).identityMap =
      s.identityMap ++ [(cd.identity, s.registry.descriptors.length)] := rfl
  have hds : (Registry.mergeNew s cd).registry.descriptors =
      s.registry.descriptors ++ [s.registry.contributedDescriptor cd] := rfl
  have hold := h identity
  rw [List.find?_append]
  -- An identity that was seen keeps its entry; the new one has none yet.
  cases hfind : seen.find? fun first => first.identity == identity with
  | some first =>
    rw [hfind] at hold
    obtain ⟨id, d, hlookup, hd, hentry⟩ := hold
    refine ⟨id, d, ?_, ?_, ?_⟩
    · rw [hmap, List.lookup_append, hlookup]
      rfl
    · rw [hds, List.getElem?_append_left (List.getElem?_eq_some_iff.mp hd).1, hd]
    · rw [(hr.mergeNew cd).2.2.entryOf hr (List.mem_of_getElem? hd), hentry]
  | none =>
    rw [hfind] at hold
    rw [hmap, List.lookup_append, hold]
    by_cases hid : cd.identity = identity
    · have hfound : [cd].find? (fun first => first.identity == identity) = some cd := by simp [hid]
      rw [Option.none_or, Option.none_or, hfound]
      refine ⟨s.registry.descriptors.length, s.registry.contributedDescriptor cd, ?_, ?_, ?_⟩
      · simp [hid]
      · rw [hds, List.getElem?_append_right le_rfl]
        simp
      · exact hr.entryOf_contributed cd
    · simp [hid, Ne.symm hid]

theorem mem_map_identity_iff {seen : List ContributedDescriptor}
    {cd : ContributedDescriptor} :
    cd.identity ∈ seen.map ContributedDescriptor.identity ↔
      seen.find? (fun first => first.identity == cd.identity) ≠ none := by
  constructor
  · intro hmem hnone
    obtain ⟨first, hfirst, heq⟩ := List.mem_map.mp hmem
    exact List.find?_eq_none.mp hnone first hfirst (by simpa using heq)
  · intro hne
    obtain ⟨first, hfirst⟩ := Option.ne_none_iff_exists'.mp hne
    have heq : first.identity = cd.identity := by simpa using List.find?_some hfirst
    exact List.mem_map.mpr ⟨first, List.mem_of_find?_eq_some hfirst, heq⟩

/-- A contribution with a known identity fails if it diverges, and changes nothing. -/
theorem mergeContribution_of_seen {seen : List ContributedDescriptor} (h : MergedFrom seen s)
    {first cd : ContributedDescriptor}
    (hfirst : seen.find? (fun first => first.identity == cd.identity) = some first) :
    (mergeContribution s cd).state = s ∧
      ((mergeContribution s cd).failure = none ↔ agreesWith first cd = true) := by
  have hmerged := h cd.identity
  rw [hfirst] at hmerged
  obtain ⟨id, d, hlookup, hd, hentry⟩ := hmerged
  have hdivergent : s.registry.divergent d cd = !agreesWith first cd := by
    have htype : s.registry.typeInterning.nameOf d.exposedType = first.exposedType.name :=
      congrArg Entry.typeName hentry
    have hname : s.registry.nameInterning.nameOf d.name = first.beanName :=
      congrArg Entry.beanName hentry
    have hlifetime : d.lifetime = first.lifetime := congrArg Entry.lifetime hentry
    simp [divergent, agreesWith, htype, hname, hlifetime, bne]
  simp only [mergeContribution, hlookup, hd, hdivergent]
  cases agreesWith first cd <;> simp

/-- Phase 1: it succeeds if the contributions are consistent, and adds the new ones. -/
theorem forEach_mergeContribution (cds : List ContributedDescriptor)
    {seen : List ContributedDescriptor} (h : MergedFrom seen s)
    (hr : s.registry.Interned) :
    (forEach mergeContribution cds s).state.registry.Interned ∧
      Extends s.registry (forEach mergeContribution cds s).state.registry ∧
      s.registry.entries <+: (forEach mergeContribution cds s).state.registry.entries ∧
      ((forEach mergeContribution cds s).failure = none ↔ consistentFrom seen cds = true) ∧
      ((forEach mergeContribution cds s).failure = none →
        (forEach mergeContribution cds s).state.registry.entries = s.registry.entries ++
          (newContributions (seen.map ContributedDescriptor.identity) cds).map
          contributedEntry) := by
  -- Along the contributions, with those seen so far.
  induction cds generalizing seen s with
  | nil => simp [forEach, consistentFrom, newContributions, hr, Extends.refl]
  | cons cd cds ih =>
    rw [forEach, consistentFrom, newContributions]
    cases hfind : seen.find? fun first => first.identity == cd.identity with
    | none =>
      have hmerged := h cd.identity
      rw [hfind] at hmerged
      have hstep : mergeContribution s cd = .ok (Registry.mergeNew s cd) := by
        simp [mergeContribution, hmerged]
      obtain ⟨hinterned, hentries, hext⟩ := hr.mergeNew cd
      obtain ⟨hfinal, hextends, hprefix, hiff, hgrown⟩ := ih (h.mergeNew hr cd) hinterned
      -- The contribution is new and appends its entry.
      rw [hstep, andThen_of_ok rfl, ok_state,
        if_neg fun hmem => mem_map_identity_iff.mp hmem hfind]
      refine ⟨hfinal, hext.trans hextends, ?_, hiff, fun hok => ?_⟩
      · rw [hentries] at hprefix
        exact (List.prefix_append _ _).trans hprefix
      · rw [hgrown hok, hentries]
        simp
    | some first =>
      obtain ⟨hstate, hagrees⟩ := mergeContribution_of_seen h hfind
      rw [if_pos (mem_map_identity_iff.mpr (by simp [hfind]))]
      -- It repeats an earlier one, and ends the merge if the two disagree.
      cases hfail : (mergeContribution s cd).failure with
      | none =>
        rw [andThen_of_ok hfail, hstate]
        simpa [hagrees.mp hfail] using ih h hr
      | some e =>
        have hdisagrees : agreesWith first cd = false := by
          rw [← Bool.not_eq_true, ← hagrees, hfail]
          rintro ⟨⟩
        rw [andThen_of_fail hfail, hstate]
        simp [hfail, hdisagrees, hr, Extends.refl]

/-! ## Phase 1.5 -/

/-- None of the entries, in this order, meets a key that is there already. -/
def keysFit (present : List Entry) : List Entry → Bool
  | [] => true
  | e :: es => present.all (fun x => x.key != e.key) && keysFit (present ++ [e]) es

/-- A key is taken if an entry has it. -/
theorem Interned.candidateKeyExists_iff (h : r.Interned) {typeId : TypeId}
    (htype : typeId < r.typeInterning.size) {nameId : NameId}
    (hname : nameId < r.nameInterning.size) (priority : ℤ) :
    r.candidateKeyExists typeId nameId priority = true ↔ ∃ x ∈ r.entries,
      x.key = (r.typeInterning.nameOf typeId, r.nameInterning.nameOf nameId, priority) := by
  have hkey : ∀ d ∈ r.descriptors, ((d.exposedType == typeId && d.name == nameId &&
      d.priority == priority) = true ↔ (r.entryOf d).key =
        (r.typeInterning.nameOf typeId, r.nameInterning.nameOf nameId, priority)) := by
    intro d hd
    simp only [Entry.key, entryOf, Bool.and_eq_true, beq_iff_eq, Prod.mk.injEq]
    constructor
    · rintro ⟨⟨rfl, rfl⟩, rfl⟩
      exact ⟨rfl, rfl, rfl⟩
    · rintro ⟨htypes, hnames, rfl⟩
      exact ⟨⟨(h.typeName_entryOf_iff hd htype).mp htypes,
        (h.beanName_entryOf_iff hd hname).mp hnames⟩, rfl⟩
  rw [candidateKeyExists, List.any_eq_true]
  constructor
  · rintro ⟨d, hd, hmatch⟩
    exact ⟨_, List.mem_map_of_mem hd, (hkey d hd).mp hmatch⟩
  · rintro ⟨x, hx, hmatch⟩
    obtain ⟨d, hd, rfl⟩ := List.mem_map.mp hx
    exact ⟨d, hd, (hkey d hd).mpr hmatch⟩

/-- One pending singleton: it is merged unless its key is taken. -/
theorem Interned.mergePendingSingleton (h : s.registry.Interned) {pb : PendingRuntimeSingleton}
    (hpb : pb.nameId < s.registry.nameInterning.size) :
    (mergePendingSingleton s pb).state.registry.Interned ∧
      (mergePendingSingleton s pb).state.registry.nameInterning = s.registry.nameInterning ∧
      s.registry.entries <+: (mergePendingSingleton s pb).state.registry.entries ∧
      ((mergePendingSingleton s pb).failure = none ↔
        s.registry.entries.all (fun x => x.key != (s.registry.pendingEntry pb).key) = true) ∧
      ((mergePendingSingleton s pb).failure = none →
        (mergePendingSingleton s pb).state.registry.entries =
          s.registry.entries ++ [s.registry.pendingEntry pb]) := by
  have hext := h.extends_types pb.type
  have htypes := h.withTypes pb.type
  have hlt := TypeInterning.internByName_lt h.indexed.types pb.type
  have hself := TypeInterning.nameOf_internByName_self h.indexed.types pb.type
  have hexists := htypes.candidateKeyExists_iff hlt hpb pb.priority
  rw [hext.entries h rfl] at hexists
  have hkey : (s.registry.pendingEntry pb).key =
      ((s.registry.withTypes (s.registry.typeInterning.internByName pb.type).2).typeInterning.nameOf
        (s.registry.typeInterning.internByName pb.type).1,
        (s.registry.withTypes
        (s.registry.typeInterning.internByName pb.type).2).nameInterning.nameOf
          pb.nameId, pb.priority) :=
    Prod.ext hself.symm rfl
  rw [← hkey] at hexists
  simp only [Registry.mergePendingSingleton]
  -- The key is taken, or the entry comes last.
  split_ifs with htaken
  · obtain ⟨x, hx, hxkey⟩ := hexists.mp htaken
    refine ⟨htypes, rfl, ?_, iff_of_false (by rintro ⟨⟩) fun hall => ?_, (by rintro ⟨⟩)⟩
    · rw [fail_state]
      exact (hext.entries h rfl).symm ▸ List.prefix_refl s.registry.entries
    · simpa [hxkey] using List.all_eq_true.mp hall x hx
  · have happend : ((s.registry.withTypes (s.registry.typeInterning.internByName
        pb.type).2).appendCandidate ((s.registry.withTypes (s.registry.typeInterning.internByName
          pb.type).2).boundDescriptor (s.registry.typeInterning.internByName pb.type).1 pb.nameId
            pb.priority .singleton)).entries =
        s.registry.entries ++ [s.registry.pendingEntry pb] := by
      rw [entries_appendCandidate, hext.entries h rfl]
      congr 2
      exact congrArg (fun name => Entry.mk name _ _ _ _) hself
    refine ⟨htypes.appendCandidate hlt hpb, rfl, ?_, iff_of_true rfl ?_, fun _ => happend⟩
    · rw [ok_state, happend]
      exact List.prefix_append _ _
    · refine List.all_eq_true.mpr fun x hx => ?_
      simpa using fun hxkey => htaken (hexists.mpr ⟨x, hx, hxkey⟩)

theorem forEach_mergePendingSingleton {pbs : List PendingRuntimeSingleton}
    (h : s.registry.Interned) (hpbs : ∀ pb ∈ pbs, pb.nameId < s.registry.nameInterning.size) :
    (forEach mergePendingSingleton pbs s).state.registry.Interned ∧
      (forEach mergePendingSingleton pbs s).state.registry.nameInterning =
        s.registry.nameInterning ∧
      s.registry.entries <+: (forEach mergePendingSingleton pbs s).state.registry.entries ∧
      ((forEach mergePendingSingleton pbs s).failure = none ↔
        keysFit s.registry.entries (pbs.map s.registry.pendingEntry) = true) ∧
      ((forEach mergePendingSingleton pbs s).failure = none →
        (forEach mergePendingSingleton pbs s).state.registry.entries =
          s.registry.entries ++ pbs.map s.registry.pendingEntry) := by
  -- Along the bindings; the first key that is taken ends the merge.
  induction pbs generalizing s with
  | nil => simp [forEach, keysFit, h]
  | cons pb pbs ih =>
    obtain ⟨hinterned, hnames, hprefix, hiff, hentries⟩ :=
      h.mergePendingSingleton (hpbs pb List.mem_cons_self)
    rw [forEach, List.map_cons, keysFit, Bool.and_eq_true, ← hiff]
    cases hfail : (Registry.mergePendingSingleton s pb).failure with
    | some e =>
      rw [andThen_of_fail hfail, hfail]
      exact ⟨hinterned, hnames, hprefix, iff_of_false (by rintro ⟨⟩) fun hand =>
        absurd hand.1 (by rintro ⟨⟩), (by rintro ⟨⟩)⟩
    | none =>
      rw [andThen_of_ok hfail]
      have hpending : (Registry.mergePendingSingleton s pb).state.registry.pendingEntry =
          s.registry.pendingEntry := by
        funext pb'
        rw [pendingEntry, hnames, pendingEntry]
      obtain ⟨hfinal, hnames', hprefix', hrest, hgrown⟩ := ih hinterned fun pb' hpb' =>
        hnames ▸ hpbs pb' (List.mem_cons_of_mem _ hpb')
      rw [hpending, hentries hfail] at hrest hgrown
      refine ⟨hfinal, hnames'.trans hnames, hprefix.trans hprefix', ?_, fun hok => ?_⟩
      · rw [hrest]
        simp
      · rw [hgrown hok]
        simp

/-! ## Phases 1 and 1.5 together -/

/-- The entries of the contributions that the merge turns into descriptors. -/
def mergedEntries (r : Registry) : List Entry :=
  (newContributions [] r.pending).map contributedEntry

/-- The pending contributions and singletons of a registry can be merged. -/
structure Mergeable (r : Registry) : Prop where
  consistent : consistentFrom [] r.pending = true
  fits : keysFit (r.entries ++ r.mergedEntries) r.pendingEntries = true

theorem mergeAll_interned (h : r.Interned) :
    (mergeAll { registry := r }).state.registry.Interned ∧
      r.entries <+: (mergeAll { registry := r }).state.registry.entries ∧
      (mergeAll { registry := r }).state.registry.pendingEntries = r.pendingEntries ∧
      ((mergeAll { registry := r }).failure = none ↔ r.Mergeable) ∧
      ((mergeAll { registry := r }).failure = none →
        (mergeAll { registry := r }).state.registry.entries =
          r.entries ++ r.mergedEntries ++ r.pendingEntries) := by
  obtain ⟨hinterned, hext, hprefix, hiff, hentries⟩ :=
    forEach_mergeContribution r.pending (mergedFrom_nil r) h
  have hpending := forEach_mergeContribution_pendingRuntimeSingletons r.pending { registry := r }
  have hkeys := hext.pendingEntries h hpending
  have hkept := mergeAll_pendingRuntimeSingletons { registry := r }
  unfold mergeAll at hkept ⊢
  -- Contributions first, bound singletons only if these agree.
  cases hfail : (forEach mergeContribution r.pending { registry := r }).failure with
  | some e =>
    rw [andThen_of_fail hfail, hfail]
    refine ⟨hinterned, hprefix, hkeys, iff_of_false nofun fun hmergeable => ?_, nofun⟩
    rw [hiff.mpr hmergeable.consistent] at hfail
    cases hfail
  | none =>
    rw [andThen_of_ok hfail] at hkept ⊢
    obtain ⟨hfinal, hnames, hprefix', hfits, hgrown⟩ :=
      forEach_mergePendingSingleton hinterned (fun pb hpb => hinterned.pending pb hpb)
    have hsame := (pendingEntries_congr hnames (hkept.trans hpending.symm)).trans hkeys
    rw [pendingEntries] at hkeys
    rw [hkeys, hentries hfail] at hfits hgrown
    exact ⟨hfinal, hprefix.trans hprefix', hsame,
      hfits.trans ⟨fun hfit => ⟨hiff.mp hfail, hfit⟩, Mergeable.fits⟩, hgrown⟩

theorem newContributions_append (seen : List Identity) (cds more : List ContributedDescriptor) :
    newContributions seen cds <+: newContributions seen (cds ++ more) := by
  induction cds generalizing seen with
  | nil => exact List.nil_prefix
  | cons cd cds ih =>
    rw [List.cons_append, newContributions, newContributions]
    split_ifs
    · exact ih seen
    · exact (List.prefix_cons_inj cd).mpr (ih _)

theorem consistentFrom_of_append {seen cds more : List ContributedDescriptor}
    (h : consistentFrom seen (cds ++ more) = true) : consistentFrom seen cds = true := by
  induction cds generalizing seen with
  | nil => rfl
  | cons cd cds ih =>
    rw [List.cons_append, consistentFrom] at h
    rw [consistentFrom]
    cases hfind : seen.find? fun first => first.identity == cd.identity with
    | none =>
      rw [hfind] at h
      exact ih h
    | some first =>
      rw [hfind] at h
      obtain ⟨hagrees, hrest⟩ := Bool.and_eq_true_iff.mp h
      exact Bool.and_eq_true_iff.mpr ⟨hagrees, ih hrest⟩

theorem keysFit_of_append {present present' es more : List Entry} (hsub : present ⊆ present')
    (h : keysFit present' (es ++ more) = true) : keysFit present es = true := by
  induction es generalizing present present' with
  | nil => rfl
  | cons e es ih =>
    obtain ⟨hfirst, hrest⟩ := Bool.and_eq_true_iff.mp h
    refine Bool.and_eq_true_iff.mpr ⟨?_, ih (fun x hx => ?_) hrest⟩
    · exact List.all_eq_true.mpr fun x hx => List.all_eq_true.mp hfirst x (hsub hx)
    · exact (List.mem_append.mp hx).elim (fun hx => List.mem_append_left _ (hsub hx))
        (List.mem_append_right _)

/-- What cannot be merged cannot be merged later either. -/
theorem Mergeable.of_grown {r' : Registry} (h : r'.Mergeable) {cds : List ContributedDescriptor}
    (hpending : r'.pending = r.pending ++ cds) {es : List Entry}
    (hsingletons : r'.pendingEntries = r.pendingEntries ++ es) (hsub : r.entries ⊆ r'.entries) :
    r.Mergeable := by
  refine ⟨consistentFrom_of_append (hpending ▸ h.consistent), ?_⟩
  have hfits := h.fits
  rw [hsingletons] at hfits
  refine keysFit_of_append (fun x hx => ?_) hfits
  rcases List.mem_append.mp hx with hx | hx
  · exact List.mem_append_left _ (hsub hx)
  · refine List.mem_append_right _ ?_
    rw [mergedEntries, hpending]
    exact ((newContributions_append [] r.pending cds).map contributedEntry).subset hx

/-- A start that cannot merge stops in phases 1 and 1.5, and none can merge after it. -/
theorem start_of_not_mergeable (h : r.Interned) (hnot : r.started = false)
    (hid : r.beanContextDescId = none) (hblocked : ¬r.Mergeable) (ctx : Addr) :
    (r.start ctx).failure ≠ none ∧ ¬(r.start ctx).state.Mergeable := by
  obtain ⟨-, hprefix, hsingletons, hiff, -⟩ := mergeAll_interned h
  have hframe := (Frame.refl r).mergeAll (s := { registry := r })
  obtain ⟨e, he⟩ := Option.ne_none_iff_exists'.mp fun hok => hblocked (hiff.mp hok)
  have hmerge : merge { registry := r } ctx = mergeAll { registry := r } := by
    unfold merge mergeAndLink
    rw [andThen_of_fail (by rw [andThen_of_fail he]; exact he), andThen_of_fail he]
  have hstart : r.start ctx = ⟨(mergeAll { registry := r }).state.registry,
      (mergeAll { registry := r }).failure⟩ := by
    rw [start, hnot, hid, hmerge]
    rfl
  rw [hstart]
  refine ⟨fun hok => ?_, fun hmergeable => hblocked ?_⟩
  · rw [show (mergeAll { registry := r }).failure = none from hok] at he
    cases he
  · exact hmergeable.of_grown (hframe.pending.trans (List.append_nil _).symm)
      (hsingletons.trans (List.append_nil _).symm) hprefix.subset

/-! ## The other phases -/

/-- The links keep the entries. -/
theorem linkAll_entries (s : StartState) :
    (linkAll s).state.registry.entries = s.registry.entries ∧
      (linkAll s).state.registry.typeInterning = s.registry.typeInterning ∧
      (linkAll s).state.registry.nameInterning = s.registry.nameInterning := by
  let P := fun s' : StartState => s'.registry.entries = s.registry.entries ∧
    s'.registry.typeInterning = s.registry.typeInterning ∧
    s'.registry.nameInterning = s.registry.nameInterning
  have hmodify : ∀ (s' : StartState) id (f : Descriptor → Descriptor),
      (∀ d, ((f d).exposedType, (f d).name, (f d).priority, (f d).lifetime, (f d).origin) =
        (d.exposedType, d.name, d.priority, d.lifetime, d.origin)) → P s' →
      P { s' with registry := s'.registry.modifyDescriptor id f } := by
    intro s' id f hf hs'
    refine ⟨?_, hs'.2⟩
    have hsame : (s'.registry.modifyDescriptor id f).entries = s'.registry.entries :=
      entries_congr rfl rfl (map_modify_of_eq hf _ _)
    exact hsame.trans hs'.1
  refine andThen_invariant (P := P)
    (forEach_invariant (P := P) (fun s' link _ hs' => ?_) ⟨rfl, rfl, rfl⟩) fun s' hs' =>
    forEach_invariant (P := P) (fun s' link _ hs' => ?_) hs'
  · unfold Registry.linkFactory
    split
    · exact hs'
    · exact hmodify s' _ _ (fun _ => rfl) hs'
  · unfold Registry.linkAlias
    split
    · exact hs'
    · exact hmodify s' _ _ (fun _ => rfl) hs'

theorem mergeAndLink_interned (h : r.Interned) :
    (mergeAndLink { registry := r }).state.registry.Interned := by
  let P := fun s : StartState => s.registry.Interned
  -- Links change descriptors, but neither their types nor their names.
  have hmodify : ∀ (s : StartState) id (f : Descriptor → Descriptor),
      (∀ d, ((f d).exposedType, (f d).name) = (d.exposedType, d.name)) → P s →
      P { s with registry := s.registry.modifyDescriptor id f } := by
    intro s id f hf hs
    refine ⟨hs.indexed.modifyDescriptor id hf, fun d hd => ?_, hs.pending⟩
    obtain ⟨i, hi⟩ := List.mem_iff_getElem?.mp hd
    rw [modifyDescriptor, List.getElem?_modify] at hi
    obtain ⟨d', hd', rfl⟩ := Option.map_eq_some_iff.mp hi
    have hname := hs.named d' (List.mem_of_getElem? hd')
    split_ifs
    · rw [show (f d').name = d'.name from congrArg Prod.snd (hf d')]
      exact hname
    · exact hname
  refine andThen_invariant (P := P) (mergeAll_interned h).1 fun s hs => ?_
  refine andThen_invariant (P := P)
    (forEach_invariant (P := P) (fun s link _ hs => ?_) ⟨hs.indexed, hs.named, nofun⟩) fun s hs =>
    forEach_invariant (P := P) (fun s link _ hs => ?_) hs
  · unfold Registry.linkFactory
    split
    · exact hs
    · exact hmodify s _ _ (fun _ => rfl) hs
  · unfold Registry.linkAlias
    split
    · exact hs
    · exact hmodify s _ _ (fun _ => rfl) hs

/-- The links come after the entries. -/
theorem mergeAndLink_entries (h : r.Interned) (hok : (mergeAll { registry := r }).failure = none) :
    (mergeAndLink { registry := r }).state.registry.entries =
      r.entries ++ r.mergedEntries ++ r.pendingEntries := by
  rw [mergeAndLink, andThen_of_ok hok, (linkAll_entries _).1, (mergeAll_interned h).2.2.2.2 hok]

/-- The end of the start adds the context bean. -/
theorem finishStart_interned (h : s.registry.Interned) (ctx : Addr) :
    (finishStart (sortState s) ctx).registry.Interned ∧
      (finishStart (sortState s) ctx).registry.entries = s.registry.entries ++ [contextEntry] := by
  have hext := h.extends_types beanContextType
  have hunnamed := NameInterning.kUnnamed_lt h.indexed.names
  have hbean := (h.withTypes beanContextType).appendCandidate
    (d := contextDescriptor s.registry.contextTypeId)
    (TypeInterning.internByName_lt h.indexed.types _) hunnamed
  constructor
  · refine ⟨Indexed.finishStart (s := sortState s) h.indexed.sortAllCandidates ctx, fun d hd => ?_,
      h.pending⟩
    have hmem : d.name ∈ (finishStart (sortState s) ctx).registry.descriptors.map
        Descriptor.name := List.mem_map_of_mem hd
    rw [finishStart_map s ctx fun _ _ => rfl] at hmem
    obtain ⟨d', hd', hname⟩ := List.mem_map.mp hmem
    rw [← hname]
    exact hbean.named d' hd'
  -- The entries are read off what the end of the start does not change.
  · have hsame : (finishStart (sortState s) ctx).registry.entries =
        ((s.registry.withTypes (s.registry.typeInterning.internByName
          beanContextType).2).appendCandidate
            (contextDescriptor s.registry.contextTypeId)).entries := by
      have hcongr : ({ (finishStart (sortState s) ctx).registry with
          typeInterning := (s.registry.typeInterning.internByName beanContextType).2 } :
          Registry).entries = ((s.registry.withTypes (s.registry.typeInterning.internByName
            beanContextType).2).appendCandidate
              (contextDescriptor s.registry.contextTypeId)).entries :=
        entries_congr rfl rfl (finishStart_map s ctx fun _ _ => rfl)
      exact hcongr
    rw [hsame, entries_appendCandidate, hext.entries h rfl]
    congr 2
    have hself := TypeInterning.nameOf_internByName_self h.indexed.types beanContextType
    have hname := NameInterning.nameOf_kUnnamed h.indexed.names
    exact congrArg₂ (fun type name => Entry.mk type name 0 .singleton .runtimeBinding) hself hname

/-- What the first start does to the entries. -/
theorem start_entries (h : r.Interned) (hnot : r.started = false)
    (hid : r.beanContextDescId = none) (ctx : Addr) :
    (r.start ctx).state.Interned ∧
      ((r.start ctx).failure = none → r.Mergeable ∧ (r.start ctx).state.entries =
        r.entries ++ r.mergedEntries ++ r.pendingEntries ++ [contextEntry]) ∧
      ((r.start ctx).failure ≠ none → r.Mergeable → (r.start ctx).state.entries =
        r.entries ++ r.mergedEntries ++ r.pendingEntries) := by
  obtain ⟨-, -, -, hmergeable, -⟩ := mergeAll_interned h
  have hinterned := mergeAndLink_interned h
  have hlinked := mergeAndLink_entries h
  rcases start_cases r ctx with ⟨hstarted, -⟩ | ⟨_, -, hsome, -⟩ | ⟨-, -, heq⟩
  · rw [hnot] at hstarted
    cases hstarted
  · rw [hid] at hsome
    cases hsome
  · rw [heq]
    -- The start fails in the merge, or ends with the entry of the context.
    cases hfail : (merge { registry := r } ctx).failure with
    | none =>
      obtain ⟨hlink, -, -, hstate⟩ := merge_of_ok hfail
      obtain ⟨hmerge, -⟩ := andThen_failure_eq_none.mp hlink
      rw [hstate]
      obtain ⟨hfinal, hcontext⟩ := finishStart_interned hinterned ctx
      refine ⟨hfinal, fun _ => ⟨hmergeable.mp hmerge, ?_⟩, fun hne => absurd rfl hne⟩
      rw [hcontext, hlinked hmerge]
    | some e =>
      refine ⟨?_, nofun, fun _ hok => ?_⟩
      · rcases merge_of_fail hfail with hstate | hstate
        · rw [hstate]
          exact hinterned
        · rw [hstate]
          exact ⟨hinterned.indexed.sortAllCandidates, hinterned.named, hinterned.pending⟩
      · rcases merge_of_fail hfail with hstate | hstate <;>
          · rw [hstate]
            exact hlinked (hmergeable.mpr hok)

/-! ## Reachable contexts -/

theorem interned_empty (S : StdSort) : ({ stdSort := S } : Registry).Interned :=
  ⟨indexed_empty S, nofun, nofun⟩

theorem Interned.start (h : r.Interned) (ctx : Addr) : (r.start ctx).state.Interned := by
  rcases start_cases r ctx with ⟨-, heq⟩ | ⟨_, -, -, heq⟩ | ⟨hnot, hid, -⟩
  · rw [heq]
    exact h
  · rw [heq]
    exact ⟨h.indexed, h.named, h.pending⟩
  · exact (start_entries h hnot hid ctx).1

theorem Interned.publishCandidate (h : r.Interned) (htype : d.exposedType < r.typeInterning.size)
    (hname : d.name < r.nameInterning.size) : (r.publishCandidate d).Interned :=
  ⟨h.indexed.publishCandidate htype, (h.appendCandidate htype hname).named, h.pending⟩

theorem Interned.bindSingleton (h : r.Interned) (type : CppType) {nameId : NameId}
    (hname : nameId < r.nameInterning.size) (priority : ℤ) (object : Addr) :
    (r.bindSingleton type nameId priority object).state.Interned := by
  unfold Registry.bindSingleton
  split_ifs
  · exact h
  · obtain ⟨hadopt, hlt⟩ := h.indexed.adoptType type
    simp only [bindSingletonStarted]
    split_ifs
    · exact ⟨hadopt, h.named, h.pending⟩
    · have hstored : ((r.withTypes (r.adoptType type).2).growSingletons object).Interned :=
        ⟨hadopt, h.named, h.pending⟩
      exact hstored.publishCandidate hlt hname
  · unfold bindSingletonPending
    split_ifs
    · exact h
    · refine ⟨h.indexed, h.named, fun pb hpb => ?_⟩
      rcases List.mem_append.mp hpb with hpb | hpb
      · exact h.pending pb hpb
      · rw [List.mem_singleton.mp hpb]
        exact hname

theorem Interned.internSession (h : r.Interned) (type : CppType) (name : String) :
    (r.internSession type name).Interned :=
  ⟨h.indexed.internSession type name, (h.withNames name).named, (h.withNames name).pending⟩

theorem Interned.sessionDescriptor (h : r.Interned) {typeId : TypeId}
    (htype : typeId < r.typeInterning.size) {nameId : NameId}
    (hname : nameId < r.nameInterning.size) (priority : ℤ) :
    (r.sessionDescriptor typeId nameId priority).2.Interned := by
  unfold Registry.sessionDescriptor
  split
  · exact h
  · simp only [appendSession]
    split_ifs
    · have hcount : r.nextSessionSlot.Interned := ⟨h.indexed, h.named, h.pending⟩
      exact hcount.publishCandidate htype hname
    · exact h.appendCandidate htype hname

end Registry

namespace BeanContext

variable {b : BeanContext}

/-- Every call interns what it refers to. -/
theorem exec_interned (h : b.core.Interned) (call : Call) : (b.exec call).state.core.Interned := by
  -- A call interns types and names at most, and appends a candidate with both of them known.
  cases call with
  | discover cds =>
    simp only [exec, discover, Registry.submitContribution]
    split_ifs
    · exact h
    · exact ⟨h.indexed, h.named, h.pending⟩
  | bindSingleton type name priority object =>
    exact (h.withNames name).bindSingleton type (NameInterning.intern_lt h.indexed.names name) _ _
  | bindSession scope type name priority object =>
    simp only [exec, bindSession]
    split_ifs
    · exact h
    · exact h.internSession type name
    · rw [placeSession_core]
      exact (h.internSession type name).sessionDescriptor (h.indexed.sessionType type).2
        (NameInterning.intern_lt h.indexed.names name) priority
  | defaultNamed scope type name =>
    simp only [exec, defaultNamed]
    split_ifs
    · exact h
    · exact h
    · split
      · exact h
      · have hnames := h.withNames name
        split <;> exact ⟨hnames.indexed, hnames.named, hnames.pending⟩
  | clearDefaultNamed scope type =>
    simp only [exec, clearDefaultNamed]
    split_ifs
    · exact h
    · split
      · exact h
      · split
        · exact ⟨h.indexed, h.named, h.pending⟩
        · split_ifs <;> exact h
  | start => exact h.start b.self
  | startScope scope => rwa [exec, startScope_core]
  | stopScope scope => rwa [exec, Attempt.ok_state, stopScope_core]
  | restartScope scope => rwa [exec, restartScope_core]

theorem Reachable.interned (hb : b.Reachable) : b.core.Interned := by
  obtain ⟨S, self, calls, rfl⟩ := hb
  exact execAll_invariant (P := fun b => b.core.Interned) (fun _ call hb => exec_interned hb call)
    (Registry.interned_empty S) calls

end BeanContext

end Ctorium
