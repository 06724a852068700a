import Ctorium.Registry.Foreseen
import Ctorium.Registry.Wiring

/-!
# Injection points and their validation

The library injects the parameters of constructors, of the producer methods of factories
and of lifecycle hooks. `discover<>()` makes the contributions of a program from what it
finds of the types (`makeAllDescriptors`), and phase 3.75 of the start checks the
parameters that the contributions record: a parameter with a `scoped` annotation is for
session beans, and a session bean is injected into a bean of another lifetime only with
this annotation (`KeepsRule`).

* `validated_keepsRule`: after a start that succeeds, the constructor parameters of the
  annotated types keep the rule, unless their type is that of the context bean;
* `selected_start`: the lifetime of the bean that a parameter selects after the start is that
  of the entry that can be `foreseen` from what has been submitted;
* `rule_kept_iff`: the contributions record no other parameters, so the rule is kept
  exactly if the entries that are foreseen for these keep it.
-/

namespace Ctorium.InjectionPoints

open Wiring BeanContext Registry Attempt UniqueMax

/-! ## Discovered entities -/

/-- The annotations of a type or of a producer method. -/
structure AnnotationScan where
  lifetime : Lifetime := .singleton
  priority : ℤ := 0
  beanName : String := ""
  lazy : Bool := true
  hasLifetimeMarker : Bool := false
  deriving DecidableEq, Repr

/-- The parameters of the compatible constructor and of the hooks of a type. -/
structure MemberScan where
  ctor : List Param := []
  postConstruct : List (List Param) := []
  preDestroy : List (List Param) := []
  deriving DecidableEq, Repr

inductive DiscoveredEntity
  /-- A type, with its direct public bases. -/
  | annotatedType (type : CppType) (bases : List CppType) (ann : AnnotationScan)
    (members : MemberScan)
  | factory (type : CppType) (members : MemberScan)
  /-- A producer method with its parameters, and the annotations and members of the type
      that it produces. -/
  | factoryProduct (declaringFactory : CppType) (method : String) (ann : AnnotationScan)
    (params : List Param) (productType : CppType) (productAnn : AnnotationScan)
    (members : MemberScan)
  deriving DecidableEq, Repr

/-- The hashes of `computeIdentityForType`, `computeIdentityForExposedType` and
    `computeIdentityForProduct`. -/
structure IdentityHashes where
  forType (typeName beanName : String) (lifetime : Lifetime) : Identity
  forExposedType (baseName concreteName beanName : String) (lifetime : Lifetime) : Identity
  forProduct (method factoryName beanName : String) (lifetime : Lifetime) : Identity

variable (H : IdentityHashes)

/-! ## Contributions -/

def makeParamDescriptors (params : List Param) : List ContributedParamDescriptor :=
  params.map fun p =>
    { injectedTypeName := some p.type.name
      injectedTypeInfo := p.type.index
      hasScopedAnnotation := p.inScope.isSome
      hasNamedAnnotation := p.named.isSome
      targetName := some (p.named.getD "") }

def makeDescriptorForAnnotatedType (type : CppType) (ann : AnnotationScan) (members : MemberScan) :
    ContributedDescriptor where
  identity := H.forType type.name ann.beanName ann.lifetime
  exposedType := type
  concreteType := type
  beanName := ann.beanName
  priority := ann.priority
  lazy := ann.lazy
  lifetime := ann.lifetime
  params := makeParamDescriptors members.ctor

/-- The alias of an annotated type for each of its direct public bases. -/
def makeExposedDescriptors (type : CppType) (bases : List CppType) (ann : AnnotationScan) :
    List ContributedDescriptor :=
  bases.map fun base =>
    { identity := H.forExposedType base.name type.name ann.beanName ann.lifetime
      exposedType := base
      concreteType := type
      beanName := ann.beanName
      priority := ann.priority
      lazy := ann.lazy
      lifetime := ann.lifetime
      isExposedAlias := true
      aliasOfPrimaryIdentity := some (H.forType type.name ann.beanName ann.lifetime) }

/-- A factory is a singleton. -/
def makeDescriptorForFactory (type : CppType) : ContributedDescriptor where
  identity := H.forType type.name "" .singleton
  exposedType := type
  concreteType := type
  lifetime := .singleton

def makeDescriptorForProduct (declaringFactory : CppType) (method : String) (ann : AnnotationScan)
    (productType : CppType) : ContributedDescriptor where
  identity := H.forProduct method declaringFactory.name ann.beanName ann.lifetime
  exposedType := productType
  concreteType := productType
  beanName := ann.beanName
  priority := ann.priority
  lifetime := ann.lifetime
  origin := .factoryProduct
  factoryMethodIdentity := some (H.forType declaringFactory.name "" .singleton)

def makeAllDescriptors (entities : List DiscoveredEntity) : List ContributedDescriptor :=
  entities.flatMap fun
    | .annotatedType type bases ann members =>
      makeDescriptorForAnnotatedType H type ann members :: makeExposedDescriptors H type bases ann
    | .factory type _ => [makeDescriptorForFactory H type]
    | .factoryProduct declaringFactory method ann _ productType _ _ =>
      [makeDescriptorForProduct H declaringFactory method ann productType]

/-! ## Injection points -/

/-- The kind of function whose parameter is injected. -/
inductive Site
  | constructor
  | factoryConstructor
  | producer
  | postConstruct
  | preDestroy
  deriving DecidableEq, Repr

structure InjectionPoint where
  /-- The lifetime of the bean that the parameter is injected for. -/
  lifetime : Lifetime
  site : Site
  param : Param
  deriving DecidableEq, Repr

def points (lifetime : Lifetime) (site : Site) (params : List Param) : List InjectionPoint :=
  params.map (⟨lifetime, site, ·⟩)

def hookPoints (lifetime : Lifetime) (members : MemberScan) : List InjectionPoint :=
  points lifetime .postConstruct members.postConstruct.flatten ++
    points lifetime .preDestroy members.preDestroy.flatten

/-- The parameters that the thunks of the descriptor of an entity inject. The hooks of a
    product run only if its type carries a lifetime annotation. -/
def DiscoveredEntity.injectionPoints : DiscoveredEntity → List InjectionPoint
  | .annotatedType _ _ ann members =>
    points ann.lifetime .constructor members.ctor ++ hookPoints ann.lifetime members
  | .factory _ members =>
    points .singleton .factoryConstructor members.ctor ++ hookPoints .singleton members
  | .factoryProduct _ _ ann params _ productAnn members =>
    points ann.lifetime .producer params ++
      if productAnn.hasLifetimeMarker then hookPoints ann.lifetime members else []

/-- The name under which the bean for a parameter is looked up, if it is interned. -/
def writtenName (r : Registry) (p : Param) : Option NameId :=
  match p.named with
  | none => some kUnnamed
  | some name => r.nameInterning.lookup name

/-- The bean that a parameter selects by the key that is written on it. -/
def selected (r : Registry) (p : Param) : Option Descriptor := do
  let typeId ← r.typeInterning.lookupByTypeIndex p.type.index
  let nameId ← writtenName r p
  let id ← (selectKey r typeId nameId).toOption
  r.descriptors[id]?

/-- The rule for session beans, for a parameter that selects a bean of the lifetime. -/
def InjectionPoint.Allows (ip : InjectionPoint) (lifetime : Lifetime) : Prop :=
  (ip.param.inScope = none → lifetime = .session → ip.lifetime = .session) ∧
    (ip.param.inScope ≠ none → lifetime = .session)

/-- The bean that the parameter selects keeps the rule. -/
def KeepsRule (r : Registry) (ip : InjectionPoint) : Prop :=
  ∀ d, selected r ip.param = some d → ip.Allows d.lifetime

/-! ## What can be said before the start -/

/-- The entry that a parameter will select after a first start, from what has been submitted
    before it. -/
def foreseen (r : Registry) (p : Param) : Option Entry := do
  let typeId ← r.typesAfterStart.lookupByTypeIndex p.type.index
  (choose Entry.priority (Entry.candidates id r.startEntries contextEntry
    (r.typesAfterStart.nameOf typeId) (p.named.getD ""))).toOption

/-- The entry that the parameter will select keeps the rule. -/
def WillKeepRule (r : Registry) (ip : InjectionPoint) : Prop :=
  ∀ e, foreseen r ip.param = some e → ip.Allows e.lifetime

/-- The parameter asks for the context bean, or for a bean that is known as one. -/
def AsksForContext (ti : TypeInterning) (p : Param) : Prop :=
  ∃ typeId, ti.lookupByTypeIndex p.type.index = some typeId ∧
    ti.nameOf typeId = beanContextType.name

/-- The parameters that phase 3.75 checks. -/
def Validated (r : Registry) (ip : InjectionPoint) : Prop :=
  ip.site = .constructor ∧ ¬AsksForContext r.typesAfterStart ip.param

/-! ## What is recorded -/

variable {H} {entities : List DiscoveredEntity} {ip : InjectionPoint}

/-- The constructor parameters of the annotated types are recorded, with the lifetime of their
    beans. -/
theorem recorded (hip : ip ∈ entities.flatMap DiscoveredEntity.injectionPoints)
    (hsite : ip.site = .constructor) : ∃ cd ∈ makeAllDescriptors H entities,
      cd.lifetime = ip.lifetime ∧ ∃ pd ∈ cd.params, makeParamDescriptors [ip.param] = [pd] := by
  obtain ⟨e, he, hip⟩ := List.mem_flatMap.mp hip
  have hhooks : ∀ lifetime members, ip ∉ hookPoints lifetime members := by
    intro lifetime members hmem
    rcases List.mem_append.mp hmem with h | h <;>
      obtain ⟨p, -, rfl⟩ := List.mem_map.mp h <;> cases hsite
  cases e with
  | annotatedType type bases ann members =>
    obtain ⟨p, hp, rfl⟩ := List.mem_map.mp
      ((List.mem_append.mp hip).resolve_right (hhooks _ _))
    refine ⟨makeDescriptorForAnnotatedType H type ann members,
      List.mem_flatMap.mpr ⟨_, he, List.mem_cons_self⟩, rfl, _, List.mem_map_of_mem hp, rfl⟩
  | factory type members =>
    obtain ⟨p, -, rfl⟩ := List.mem_map.mp
      ((List.mem_append.mp hip).resolve_right (hhooks _ _))
    cases hsite
  | factoryProduct declaringFactory method ann params productType productAnn members =>
    rcases List.mem_append.mp hip with h | h
    · obtain ⟨p, -, rfl⟩ := List.mem_map.mp h
      cases hsite
    · split_ifs at h
      · exact absurd h (hhooks _ _)
      · exact absurd h List.not_mem_nil

/-! ## What is selected -/

/-- From sorted candidates, the first one is selected. -/
theorem head_of_selectKey {r : Registry} {S : StdSort} {ix : TypeIndex}
    {priorityOf : DescriptorId → ℤ}
    {typeId : TypeId} {nameId : NameId} {id : DescriptorId}
    (hentries : r.typeIndex.entries typeId = (ix.sortAllCandidates S priorityOf).entries typeId)
    (hsingle : r.typeIndex.singleUnnamed typeId =
      (ix.sortAllCandidates S priorityOf).singleUnnamed typeId)
    (hok : selectKey r typeId nameId = .ok id) :
    ∃ candidates, (ix.sortAllCandidates S priorityOf).candidatesFor typeId nameId =
      some candidates ∧ candidates.head? = some id := by
  unfold selectKey at hok
  split at hok
  · next id' hid =>
    obtain rfl := Except.ok.inj hok
    split_ifs at hid with hname
    subst hname
    rw [hsingle] at hid
    -- The cache of the only candidate.
    cases hentry : (ix.flushed S typeId kUnnamed).map (TypeIndex.sortedEntry S priorityOf) with
    | none => simp [TypeIndex.sortAllCandidates, hentry] at hid
    | some entry =>
      simp only [TypeIndex.sortAllCandidates, hentry] at hid
      refine ⟨entry.candidates, by simp [TypeIndex.candidatesFor,
        TypeIndex.entries_sortAllCandidates, hentry], ?_⟩
      split at hid
      · next heq =>
        cases heq
        exact hid
      · cases hid
  · rw [hentries, TypeIndex.entries_sortAllCandidates] at hok
    cases hl : ix.flushed S typeId nameId with
    | none => simp [hl, selectEntry] at hok
    | some l =>
      refine ⟨(TypeIndex.sortedEntry S priorityOf l).candidates, by simp [TypeIndex.candidatesFor,
        TypeIndex.entries_sortAllCandidates, hl], ?_⟩
      have hhead : (TypeIndex.sortedEntry S priorityOf l).head =
        (TypeIndex.sortedEntry S priorityOf l).candidates.head? := rfl
      rw [hl, Option.map_some, selectEntry, hhead] at hok
      cases hc : (TypeIndex.sortedEntry S priorityOf l).candidates with
      | nil =>
        simp [hc, selectFallback] at hok
      | cons x rest =>
        simp only [hc, List.head?_cons] at hok
        split_ifs at hok
        exact congrArg some (Except.ok.inj hok)

section Finish

variable {s : StartState} {ctx : Addr} {p : Param}

/-- A type that is not taken for that of the context bean has been found before it. -/
theorem lookup_of_finishStart (h : s.registry.Indexed) {typeId : TypeId}
    (hlookup : (finishStart (sortState s) ctx).registry.typeInterning.lookupByTypeIndex
      p.type.index = some typeId)
    (hcontext : ¬AsksForContext (finishStart (sortState s) ctx).registry.typeInterning p) :
    s.registry.typeInterning.lookupByTypeIndex p.type.index = some typeId ∧
      typeId ≠ s.registry.contextTypeId := by
  have hself := TypeInterning.nameOf_internByName_self h.types beanContextType
  have hne : typeId ≠ s.registry.contextTypeId := by
    rintro rfl
    exact hcontext ⟨_, hlookup, hself⟩
  refine ⟨?_, hne⟩
  have hlooked : (s.registry.typeInterning.internByName beanContextType).2.lookupByTypeIndex
      p.type.index = some typeId := hlookup
  rcases TypeInterning.lookupByTypeIndex_internByName h.types hlooked with hold | rfl
  · exact hold
  · rcases TypeInterning.internByName_cases h.types beanContextType with ⟨hsame, -, -⟩ | ⟨hid, -⟩
    · have hfound : (s.registry.typeInterning.internByName beanContextType).2.lookupByTypeIndex
          p.type.index = some s.registry.typeInterning.size := hlookup
      rw [hsame] at hfound
      exact absurd (h.types.found _ _ hfound) (Nat.lt_irrefl _)
    · exact absurd hid.symm hne

/-- The bean that a parameter selects after the start has the lifetime of the candidate that
    phase 3.75 has looked at. -/
theorem paramCandidate_of_selected (h : s.registry.Indexed) {d : Descriptor}
    (hsel : selected (finishStart (sortState s) ctx).registry p = some d)
    (hcontext : ¬AsksForContext (finishStart (sortState s) ctx).registry.typeInterning p)
    {pd : ContributedParamDescriptor} (hpd : makeParamDescriptors [p] = [pd]) :
    ∃ d', (sortState s).registry.paramCandidate pd = some d' ∧ d'.lifetime = d.lifetime := by
  obtain ⟨typeId, hlookup, hsel⟩ := Option.bind_eq_some_iff.mp hsel
  obtain ⟨nameId, hname, hsel⟩ := Option.bind_eq_some_iff.mp hsel
  obtain ⟨id, hkey, hd⟩ := Option.bind_eq_some_iff.mp hsel
  obtain ⟨htype, hne⟩ := lookup_of_finishStart h hlookup hcontext
  obtain rfl := (List.singleton_inj.mp hpd).symm
  have hok : selectKey (finishStart (sortState s) ctx).registry typeId nameId = .ok id := by
    cases hk : selectKey (finishStart (sortState s) ctx).registry typeId nameId with
    | ok id' => simpa [hk, Except.toOption] using hkey
    | error e => simp [hk, Except.toOption] at hkey
  have hentries : (finishStart (sortState s) ctx).registry.typeIndex.entries typeId =
      (s.registry.typeIndex.sortAllCandidates s.registry.stdSort s.registry.priorityOf).entries
        typeId :=
    Function.update_of_ne hne ..
  have hsingle : (finishStart (sortState s) ctx).registry.typeIndex.singleUnnamed typeId =
      (s.registry.typeIndex.sortAllCandidates s.registry.stdSort
        s.registry.priorityOf).singleUnnamed typeId :=
    Function.update_of_ne hne ..
  obtain ⟨candidates, hcandidates, hhead⟩ := head_of_selectKey hentries hsingle hok
  -- The candidate is one of the descriptors that were there before the context bean.
  have hmem : id ∈ keyIds s.registry.descriptors typeId nameId := by
    have hperm : (((s.registry.typeIndex.sortAllCandidates s.registry.stdSort
        s.registry.priorityOf).candidatesFor typeId nameId).getD []).Perm
          (s.registry.typeIndex.inserted typeId nameId) :=
      TypeIndex.candidatesFor_sortAllCandidates_perm
    rw [hcandidates] at hperm
    exact (hperm.trans (h.inserted typeId nameId)).mem_iff.mp (List.mem_of_mem_head? hhead)
  obtain ⟨d', hd', -⟩ := mem_keyIds.mp hmem
  have hlt := (List.getElem?_eq_some_iff.mp hd').1
  refine ⟨d', ?_, ?_⟩
  · have hparam : (sortState s).registry.paramName
        { injectedTypeName := some p.type.name
          injectedTypeInfo := p.type.index
          hasScopedAnnotation := p.inScope.isSome
          hasNamedAnnotation := p.named.isSome
          targetName := some (p.named.getD "") } = some nameId := by
      rw [← hname, paramName, writtenName]
      cases p.named <;> rfl
    unfold paramCandidate
    rw [show (sortState s).registry.typeInterning.lookupByTypeIndex p.type.index = some typeId
      from htype, hparam]
    simp only [Option.bind_eq_bind, Option.bind_some]
    rw [show (sortState s).registry.typeIndex.candidatesFor typeId nameId = some candidates
      from hcandidates, Option.bind_some, hhead]
    exact hd'
  · have hmap := finishStart_map s ctx (g := Descriptor.lifetime) fun _ _ => rfl
    have hget := congrArg (·[id]?) hmap
    simp only [List.getElem?_map, List.getElem?_append_left hlt, hd, hd', Option.map_some,
      Option.some.injEq] at hget
    exact hget.symm

end Finish

/-! ## The results -/

variable {b : BeanContext}

/-- A start that succeeds has passed phase 3.75. -/
theorem validateScoped_of_start (hb : b.Sound) (hfirst : b.core.beanContextDescId = none)
    (hok : b.start.failure = none) :
    (sortState (mergeAndLink { registry := b.core }).state).registry.validateScoped = none := by
  rcases start_cases b.core b.self with ⟨hs, -⟩ | ⟨id, -, hid, -⟩ | ⟨-, -, heq⟩
  · exact absurd hfirst (hb.begun hs)
  · rw [hfirst] at hid
    cases hid
  · have hmerge : (merge { registry := b.core } b.self).failure = none := by
      simpa only [BeanContext.start, heq] using hok
    exact (merge_of_ok hmerge).2.2.1

/-- The tables after a first start that succeeds. -/
theorem start_finished (hb : b.Reachable) (hfirst : b.core.beanContextDescId = none)
    (hok : b.start.failure = none) :
    (mergeAndLink { registry := b.core }).state.registry.Interned ∧
      (mergeAndLink { registry := b.core }).state.registry.entries = b.core.startEntries ∧
      b.start.state.core =
        (finishStart (sortState (mergeAndLink { registry := b.core }).state) b.self).registry ∧
      b.start.state.core.typeInterning = b.core.typesAfterStart.freeze := by
  obtain ⟨hlink, hcore⟩ := hb.sound.start_eq hfirst hok
  obtain ⟨hmerge, -⟩ := andThen_failure_eq_none.mp hlink
  exact ⟨mergeAndLink_interned hb.interned, mergeAndLink_entries hb.interned hmerge, hcore,
    hcore ▸ finishStart_typeInterning hlink b.self⟩

/-- The name that is written on a parameter, if it is interned. -/
theorem nameOf_writtenName {r : Registry} (h : r.nameInterning.Valid) {p : Param} {nameId : NameId}
    (hname : writtenName r p = some nameId) :
    nameId < r.nameInterning.size ∧ r.nameInterning.nameOf nameId = p.named.getD "" := by
  unfold writtenName at hname
  cases hnamed : p.named with
  | none =>
    rw [hnamed] at hname
    obtain rfl := Option.some.inj hname
    exact ⟨NameInterning.kUnnamed_lt h, NameInterning.nameOf_kUnnamed h⟩
  | some name =>
    rw [hnamed] at hname
    exact (NameInterning.lookup_eq_some_iff h).mp hname

/-- There are no candidates of a name that is not interned. -/
theorem candidates_of_unknown {r : Registry} (h : r.Interned) {p : Param}
    (hname : writtenName r p = none) {sorted : List Entry}
    (hentries : r.entries = sorted ++ [contextEntry]) (typeName : String) :
    Entry.candidates id sorted contextEntry typeName (p.named.getD "") = [] := by
  obtain ⟨name, hnamed⟩ : ∃ name, p.named = some name := by
    cases hnamed : p.named with
    | none => simp [writtenName, hnamed] at hname
    | some name => exact ⟨name, rfl⟩
  have hlookup : r.nameInterning.lookup name = none := by
    simpa only [writtenName, hnamed] using hname
  have hnone : ∀ e ∈ sorted ++ [contextEntry], ¬e.hasKey typeName (p.named.getD "") = true := by
    intro e he hkey
    rw [← hentries] at he
    obtain ⟨d, hd, rfl⟩ := List.mem_map.mp he
    have htext : (r.entryOf d).beanName = name := by
      rw [hnamed] at hkey
      exact beq_iff_eq.mp (Bool.and_eq_true_iff.mp hkey).2
    rw [(NameInterning.lookup_eq_some_iff h.indexed.names).mpr ⟨h.named d hd, htext⟩] at hlookup
    cases hlookup
  have hsorted : sorted.filter (fun e => e.hasKey typeName (p.named.getD "")) = [] :=
    List.filter_eq_nil_iff.mpr fun e he => hnone e (List.mem_append_left _ he)
  have htable := List.filter_eq_nil_iff.mpr hnone
  simp only [Entry.candidates, id_eq]
  split_ifs
  · exact htable
  · exact hsorted

theorem toOption_bind_of_map {ε α β : Type*} {x : Except ε α} {y : Except ε β} {f : α → Option β}
    (h : x.map f = y.map some) : x.toOption.bind f = y.toOption := by
  cases x with
  | error e =>
    cases y with
    | error e' => rfl
    | ok b => cases h
  | ok a =>
    cases y with
    | error e' => cases h
    | ok b => exact Except.ok.inj h

/-- The bean that a parameter selects after the first start has the lifetime that could be
    foreseen. -/
theorem selected_start (hb : b.Reachable) (hfirst : b.core.beanContextDescId = none)
    (hok : b.start.failure = none) (p : Param) :
    (selected b.start.state.core p).map Descriptor.lifetime =
      (foreseen b.core p).map Entry.lifetime := by
  obtain ⟨hinterned, hsorted, hcore, htypes⟩ := start_finished hb hfirst hok
  obtain ⟨hfinal, hentries⟩ := finishStart_interned hinterned b.self
  have hselect := @selectKey_finishStart_candidates Entry id b.core.startEntries contextEntry _
    hinterned (hsorted.trans (List.map_id _).symm) rfl b.self
  rw [hsorted] at hentries
  rw [← hcore] at hfinal hentries hselect
  generalize b.start.state.core = r at *
  have hlookup : r.typeInterning.lookupByTypeIndex p.type.index =
      b.core.typesAfterStart.lookupByTypeIndex p.type.index := by rw [htypes]; rfl
  have htext : r.typeInterning.nameOf = b.core.typesAfterStart.nameOf := by rw [htypes]; rfl
  unfold selected foreseen
  rw [hlookup]
  -- Both look up the type first, in the table of the start.
  cases htype : b.core.typesAfterStart.lookupByTypeIndex p.type.index with
  | none => rfl
  | some typeId =>
    have hlt := hfinal.indexed.types.found _ _ (hlookup.trans htype)
    simp only [Option.bind_eq_bind, Option.bind_some]
    -- A name that is not known has no candidates.
    cases hname : writtenName r p with
    | none =>
      rw [candidates_of_unknown hfinal hname hentries]
      rfl
    | some nameId =>
      obtain ⟨hnamelt, hnametext⟩ := nameOf_writtenName hfinal.indexed.names hname
      have hchosen := toOption_bind_of_map (hselect hlt hnamelt)
      rw [htext, hnametext, ← hentries] at hchosen
      have hentry : ((selectKey r typeId nameId).toOption.bind fun descId =>
          r.descriptors[descId]?).map r.entryOf = (choose Entry.priority (Entry.candidates id
            b.core.startEntries contextEntry (b.core.typesAfterStart.nameOf typeId)
            (p.named.getD ""))).toOption := by
        refine Eq.trans ?_ hchosen
        rw [Option.map_bind]
        exact congrArg _ (funext fun descId => (List.getElem?_map ..).symm)
      rw [Option.bind_some, ← hentry, Option.map_map]
      rfl

theorem keepsRule_start_iff (hb : b.Reachable) (hfirst : b.core.beanContextDescId = none)
    (hok : b.start.failure = none) : KeepsRule b.start.state.core ip ↔ WillKeepRule b.core ip := by
  have hsame := selected_start hb hfirst hok ip.param
  constructor
  · intro h e he
    rw [he, Option.map_some] at hsame
    obtain ⟨d, hd, hlifetime⟩ := Option.map_eq_some_iff.mp hsame
    exact hlifetime ▸ h d hd
  · intro h d hd
    rw [hd, Option.map_some] at hsame
    obtain ⟨e, he, hlifetime⟩ := Option.map_eq_some_iff.mp hsame.symm
    exact hlifetime ▸ h e he

/-- After a start that succeeds, the parameters that it has checked keep the rule. -/
theorem validated_keepsRule (hb : b.Reachable) (hfirst : b.core.beanContextDescId = none)
    (hpending : b.core.pending = makeAllDescriptors H entities) (hok : b.start.failure = none)
    (hip : ip ∈ entities.flatMap DiscoveredEntity.injectionPoints)
    (hvalid : Validated b.core ip) : KeepsRule b.start.state.core ip := by
  obtain ⟨hinterned, -, hcore, htypes⟩ := start_finished hb hfirst hok
  have hindexed := hinterned.indexed
  have hscoped := validateScoped_of_start hb.sound hfirst hok
  have hcontext : ¬AsksForContext b.start.state.core.typeInterning ip.param := by
    rw [htypes]
    exact hvalid.2
  rw [hcore] at hcontext ⊢
  intro d hd
  obtain ⟨cd, hcd, hlifetime, pd, hpd, heq⟩ := recorded (H := H) hip hvalid.1
  obtain ⟨d', hcandidate, hd'⟩ := paramCandidate_of_selected hindexed hd hcontext heq
  -- The start has checked this parameter, and found no violation.
  have hframe := (Frame.refl b.core).mergeAndLink (s := { registry := b.core })
  have hnone : (sortState (mergeAndLink { registry := b.core }).state).registry.scopedViolation
      cd pd = none := by
    have hall := List.findSome?_eq_none_iff.mp hscoped cd (by
      change cd ∈ (mergeAndLink { registry := b.core }).state.registry.pending
      rw [hframe.pending, hpending]
      exact hcd)
    exact List.findSome?_eq_none_iff.mp hall pd hpd
  obtain rfl := (List.singleton_inj.mp heq).symm
  rw [scopedViolation, hcandidate] at hnone
  simp only [hd', hlifetime] at hnone
  constructor
  · intro hplain hsession
    by_contra hother
    simp [hplain, hsession, hother] at hnone
  · intro hannotated
    by_contra hother
    have hsome : ip.param.inScope.isSome := Option.isSome_iff_ne_none.mpr hannotated
    simp [hsome, hother] at hnone

/-- After a start that succeeds, the rule is kept exactly if what has been submitted keeps it at
    the parameters that are not checked: those of the constructors of factories, of producer
    methods and of hooks, and those that ask for the context bean. -/
theorem rule_kept_iff (hb : b.Reachable) (hfirst : b.core.beanContextDescId = none)
    (hpending : b.core.pending = makeAllDescriptors H entities) (hok : b.start.failure = none) :
    (∀ ip ∈ entities.flatMap DiscoveredEntity.injectionPoints, KeepsRule b.start.state.core ip) ↔
      ∀ ip ∈ entities.flatMap DiscoveredEntity.injectionPoints,
        ¬Validated b.core ip → WillKeepRule b.core ip := by
  constructor
  · exact fun h ip hip _ => (keepsRule_start_iff hb hfirst hok).mp (h ip hip)
  · intro h ip hip
    by_cases hvalid : Validated b.core ip
    · exact validated_keepsRule hb hfirst hpending hok hip hvalid
    · exact (keepsRule_start_iff hb hfirst hok).mpr (h ip hip hvalid)

/-- Hashes by which the examples tell their types apart. -/
def lengths : IdentityHashes where
  forType typeName _ _ := typeName.length
  forExposedType baseName concreteName _ _ := 100 + baseName.length + concreteName.length
  forProduct method _ _ _ := 200 + method.length

def document : CppType := ⟨"Document", 1⟩

/-- A session bean, and a singleton with the given members. -/
def editor (members : MemberScan) : List DiscoveredEntity :=
  [.annotatedType document [] { lifetime := .session, hasLifetimeMarker := true } {},
    .annotatedType ⟨"Editor", 2⟩ [] { hasLifetimeMarker := true } members]

def editorContext (members : MemberScan) : BeanContext :=
  execAll .initial [.discover (makeAllDescriptors lengths (editor members))]

/-- The constructor of the singleton takes the session bean from a scope. -/
def scopedEditor : MemberScan where
  ctor := [{ type := document, inScope := some "editor" }]

theorem scoped_constructor_keeps_rule : (editorContext scopedEditor).start.failure = none ∧
    ∀ ip ∈ (editor scopedEditor).flatMap DiscoveredEntity.injectionPoints,
      KeepsRule (editorContext scopedEditor).start.state.core ip := by
  have hok : (editorContext scopedEditor).start.failure = none := by decide
  refine ⟨hok, (rule_kept_iff (H := lengths) ⟨_, 0, [.discover _], rfl⟩ rfl (by decide) hok).mpr ?_⟩
  intro ip hip hvalid
  have hpoints : (editor scopedEditor).flatMap DiscoveredEntity.injectionPoints =
      [⟨.singleton, .constructor, { type := document, inScope := some "editor" }⟩] := by decide
  rw [hpoints, List.mem_singleton] at hip
  subst hip
  refine absurd ⟨rfl, ?_⟩ hvalid
  rintro ⟨typeId, hlookup, hname⟩
  have hfound : (editorContext scopedEditor).core.typesAfterStart.lookupByTypeIndex
      document.index = some 0 := by decide
  obtain rfl := Option.some.inj (hfound.symm.trans hlookup)
  revert hname
  decide

/-- A hook of the singleton takes the session bean without a scope. -/
def hookedEditor : MemberScan where
  postConstruct := [[{ type := document }]]

theorem hook_breaks_rule : (editorContext hookedEditor).start.failure = none ∧
    ¬∀ ip ∈ (editor hookedEditor).flatMap DiscoveredEntity.injectionPoints,
      KeepsRule (editorContext hookedEditor).start.state.core ip := by
  refine ⟨by decide, fun h => ?_⟩
  have hrule := h ⟨.singleton, .postConstruct, { type := document }⟩ (by decide)
  have hselected : (selected (editorContext hookedEditor).start.state.core
      { type := document }).map Descriptor.lifetime = some .session := by decide
  obtain ⟨d, hd, hsession⟩ := Option.map_eq_some_iff.mp hselected
  cases (hrule d hd).1 rfl hsession

end Ctorium.InjectionPoints
