import Ctorium.Lib.Machine
import Ctorium.Registry.Entries
import Ctorium.Startup
import Ctorium.Teardown

/-!
# The targets of deferred handles

A parameter that is annotated `scoped` gets a handle that is resolved later, in the
scope of that name. Its descriptor is selected when the parameter is injected, from the
candidate vector of the type and of the name that is written on the parameter: no default
name counts here, neither one of the root nor one of the scope, and no cache of the index
is read. The identifiers of the names are cached per call site, for one registry at a time.

* `SiteCache.Tells`: what a call site remembers of a registry is what the registry has
  interned, in every run of calls on any number of contexts.
* `selects_like_resolve_iff`: when the selection is that of a resolution from the scope.
* `default_ignored`: a default name of the root is followed by the resolution only.
-/

namespace Ctorium

open Attempt

/-! ## What calls keep -/

/-- The cached head of a key is among its candidates. -/
def TypeIndex.HeadsListed (ix : TypeIndex) : Prop :=
  ∀ typeId nameId e d, ix.entries typeId nameId = some e → e.head = some d → d ∈ e.candidates

namespace TypeIndex

variable {ix : TypeIndex}

theorem HeadsListed.insertCandidate (h : ix.HeadsListed) (typeId : TypeId) (nameId : NameId)
    (descId : DescriptorId) : (ix.insertCandidate typeId nameId descId).HeadsListed := by
  unfold TypeIndex.insertCandidate
  split_ifs
  · intro typeId' nameId' e d he hd
    by_cases hkey : typeId' = typeId ∧ nameId' = nameId
    · obtain ⟨rfl, rfl⟩ := hkey
      simp only [Function.update_self, Option.some.injEq] at he
      subst he
      -- A new entry has no head.
      have hold : d ∈ (ix.tryEmplace typeId' nameId').candidates := by
        unfold TypeIndex.tryEmplace at hd ⊢
        cases hentry : ix.entries typeId' nameId' with
        | none =>
          rw [hentry] at hd
          cases hd
        | some e =>
          rw [hentry] at hd
          exact h _ _ e d hentry hd
      exact List.mem_append_left _ hold
    · have hsame : Function.update ix.entries typeId (Function.update (ix.entries typeId) nameId
          (some { ix.tryEmplace typeId nameId with
            candidates := (ix.tryEmplace typeId nameId).candidates ++ [descId] })) typeId' nameId' =
          ix.entries typeId' nameId' := by
        by_cases htype : typeId' = typeId
        · subst htype
          rw [Function.update_self, Function.update_of_ne fun hname => hkey ⟨rfl, hname⟩]
        · rw [Function.update_of_ne htype]
      exact h typeId' nameId' e d (hsame.symm.trans he) hd
  · exact h

theorem headsListed_sortAllCandidates (S : StdSort) (priorityOf : DescriptorId → ℤ)
    (ix : TypeIndex) : (ix.sortAllCandidates S priorityOf).HeadsListed := by
  intro typeId nameId e d he hd
  obtain ⟨l, -, rfl⟩ := Option.map_eq_some_iff.mp he
  exact List.mem_of_mem_head? hd

end TypeIndex

namespace Registry

variable {r r' r'' : Registry} {s : StartState}

/-- Names keep their identifiers, and heads stay listed. -/
structure Onward (r r' : Registry) : Prop where
  names : ∀ name id, r.nameInterning.lookup name = some id →
    r'.nameInterning.lookup name = some id
  heads : r.typeIndex.HeadsListed → r'.typeIndex.HeadsListed

theorem Onward.refl (r : Registry) : Onward r r := ⟨fun _ _ h => h, id⟩

theorem Onward.trans (h : Onward r r') (h' : Onward r' r'') : Onward r r'' :=
  ⟨fun _ _ hname => h'.names _ _ (h.names _ _ hname), fun hheads => h'.heads (h.heads hheads)⟩

theorem Onward.of_eq (hnames : r'.nameInterning = r.nameInterning)
    (hindex : r'.typeIndex = r.typeIndex) : Onward r r' :=
  ⟨fun _ _ h => hnames ▸ h, fun h => hindex ▸ h⟩

theorem Onward.intern (r : Registry) (name : String) :
    Onward r (r.withNames (r.nameInterning.intern name).2) :=
  ⟨fun _ _ h => Teardown.lookup_intern h, id⟩

theorem Onward.appendCandidate (r : Registry) (d : Descriptor) :
    Onward r (r.appendCandidate d) :=
  ⟨fun _ _ h => h, fun h => h.insertCandidate _ _ _⟩

theorem Onward.publishCandidate (r : Registry) (d : Descriptor) :
    Onward r (r.publishCandidate d) :=
  ⟨fun _ _ h => h, fun _ => TypeIndex.headsListed_sortAllCandidates _ _ _⟩

theorem onward_mergeContribution (s : StartState) (cd : ContributedDescriptor) :
    Onward s.registry (mergeContribution s cd).state.registry := by
  unfold mergeContribution
  split
  · have hinterned : Onward s.registry (s.registry.internContribution cd) :=
      ⟨fun _ _ h => Teardown.lookup_intern h, id⟩
    exact hinterned.trans (Onward.appendCandidate _ _)
  · split
    · split_ifs <;> exact .refl _
    · exact .refl _

theorem onward_mergePendingSingleton (s : StartState) (pb : PendingRuntimeSingleton) :
    Onward s.registry (mergePendingSingleton s pb).state.registry := by
  simp only [mergePendingSingleton]
  split_ifs
  · exact .of_eq rfl rfl
  · exact ⟨fun _ _ h => h, fun h => h.insertCandidate _ _ _⟩

theorem onward_mergeAndLink (s : StartState) :
    Onward s.registry (mergeAndLink s).state.registry := by
  let P := fun t : StartState => Onward s.registry t.registry
  refine andThen_invariant (P := P) ?_ fun t ht => ?_
  · refine andThen_invariant (P := P) (forEach_invariant (P := P) ?_ (.refl _)) fun t ht => ?_
    · exact fun t cd _ ht => ht.trans (onward_mergeContribution t cd)
    · refine forEach_invariant (P := P) ?_ ht
      exact fun t pb _ ht => ht.trans (onward_mergePendingSingleton t pb)
  · refine andThen_invariant (P := P) (forEach_invariant (P := P) ?_ ?_) fun t ht => ?_
    · intro t link _ ht
      unfold linkFactory
      split
      · exact ht
      · exact ht.trans (.of_eq rfl rfl)
    · exact ht.trans (.of_eq rfl rfl)
    · refine forEach_invariant (P := P) ?_ ht
      intro t link _ ht
      unfold linkAlias
      split
      · exact ht
      · exact ht.trans (.of_eq rfl rfl)

theorem onward_start (r : Registry) (ctx : Addr) : Onward r (r.start ctx).state := by
  have hlink := onward_mergeAndLink { registry := r }
  have hsort : Onward r (sortState (mergeAndLink { registry := r }).state).registry :=
    ⟨hlink.names, fun _ => TypeIndex.headsListed_sortAllCandidates _ _ _⟩
  rcases start_cases r ctx with ⟨-, heq⟩ | ⟨descId, -, -, heq⟩ | ⟨-, -, heq⟩
  · rw [heq]
    exact .refl r
  · rw [heq]
    exact .of_eq rfl rfl
  · rw [heq]
    cases hfail : (merge { registry := r } ctx).failure with
    | none =>
      rw [(merge_of_ok hfail).2.2.2]
      exact hsort.trans ⟨fun _ _ h => h, fun h => h.insertCandidate _ _ _⟩
    | some e =>
      rcases merge_of_fail hfail with hstate | hstate <;> rw [hstate]
      · exact hlink
      · exact hsort

end Registry

namespace BeanContext

open Registry (Onward)

/-- Every call keeps the identifiers of names. -/
theorem exec_onward (b : BeanContext) (call : Call) : Onward b.core (b.exec call).state.core := by
  -- Every call adds names at most; the index is sorted anew where entries come in after the start.
  cases call with
  | discover cds =>
    simp only [exec, discover, Registry.submitContribution]
    split_ifs <;> exact .of_eq rfl rfl
  | bindSingleton type name priority object =>
    have hname := Onward.intern b.core name
    simp only [exec, bindSingleton, Registry.bindSingleton]
    split_ifs
    · exact hname
    · simp only [Registry.bindSingletonStarted]
      split_ifs
      · exact hname.trans (.of_eq rfl rfl)
      · exact hname.trans ⟨fun _ _ h => h, fun _ => TypeIndex.headsListed_sortAllCandidates _ _ _⟩
    · unfold Registry.bindSingletonPending
      split_ifs
      · exact hname
      · exact hname.trans (.of_eq rfl rfl)
  | bindSession scope type name priority object =>
    have hname : Onward b.core (b.core.internSession type name) :=
      ⟨fun _ _ h => Teardown.lookup_intern h, id⟩
    simp only [exec, bindSession]
    split_ifs
    · exact .refl _
    · exact hname
    · rw [placeSession_core]
      refine hname.trans ?_
      unfold Registry.sessionDescriptor
      split
      · exact .refl _
      · simp only [Registry.appendSession]
        split_ifs
        · exact ⟨fun _ _ h => h, fun _ => TypeIndex.headsListed_sortAllCandidates _ _ _⟩
        · exact .appendCandidate _ _
  | defaultNamed scope type name =>
    have hname := Onward.intern b.core name
    simp only [exec, defaultNamed]
    split_ifs
    · exact .refl _
    · exact .refl _
    · split
      · exact .refl _
      · split
        · exact hname.trans (.of_eq rfl rfl)
        · exact hname
  | clearDefaultNamed scope type =>
    simp only [exec, clearDefaultNamed]
    split_ifs
    · exact .refl _
    · split
      · exact .refl _
      · split
        · exact .of_eq rfl rfl
        · split_ifs <;> exact .refl _
  | start => exact Registry.onward_start b.core b.self
  | startScope scope => simpa only [exec, startScope_core] using Onward.refl b.core
  | stopScope scope => simpa only [exec, Attempt.ok, stopScope_core] using Onward.refl b.core
  | restartScope scope => simpa only [exec, restartScope_core] using Onward.refl b.core

end BeanContext

/-! ## Call sites -/

namespace Deferred

open Teardown (lookup_intern)
open Wiring (deferredTarget unregisteredType unknownQualifier notStarted)
open UniqueMax (first)
open BeanContext (Call selectEntry selectFallback selectKey noBean ambiguousResolution)

/-- The number of a registry; none is used twice. -/
abbrev RegistryId := ℕ

/-- A parameter that is annotated `scoped`, and maybe `named`. -/
structure Site where
  type : CppType
  scopeName : String
  named : Option String := none

/-- A static cache of a call site: the identifier of a name, in the registry with that number. -/
abbrev SiteCache := Option (RegistryId × NameId)

def SiteCache.find? (cache : SiteCache) (id : RegistryId) : Option NameId :=
  cache.bind fun x => if x.1 = id then some x.2 else none

/-- The contexts of a program, and the caches of the call site. -/
structure Program where
  contexts : RegistryId → BeanContext
  scopeCache : SiteCache := none
  candidateCache : SiteCache := none

def Program.setContext (s : Program) (id : RegistryId) (b : BeanContext) : Program :=
  { s with contexts := Function.update s.contexts id b }

/-- `Registry::internScopeNameCached`. -/
def internScopeNameCached (id : RegistryId) (ni : NameInterning) (name : String)
    (cache : SiteCache) : NameId × NameInterning × SiteCache :=
  if name = "" then (kUnnamed, ni, cache)
  else match cache.find? id with
    | some nameId => (nameId, ni, cache)
    | none => ((ni.intern name).1, (ni.intern name).2, some (id, (ni.intern name).1))

/-- The cached lookup of a qualifier. -/
def lookupCached (id : RegistryId) (ni : NameInterning) (name : String) (cache : SiteCache) :
    Option NameId × SiteCache :=
  match cache.find? id with
  | some nameId => (some nameId, cache)
  | none =>
    match ni.lookup name with
    | some nameId => (some nameId, some (id, nameId))
    | none => (none, cache)

/-- The name of the candidate, from the `named` annotation. -/
def candidateName (p : Site) (id : RegistryId) (ni : NameInterning) (cache : SiteCache) :
    Except Failure NameId × SiteCache :=
  match p.named with
  | none => (.ok kUnnamed, cache)
  | some name =>
    match lookupCached id ni name cache with
    | (some nameId, cache) => (.ok nameId, cache)
    | (none, cache) => (.error (unknownQualifier name), cache)

structure DeferredHandle where
  scopeNameId : NameId
  descId : DescriptorId
  deriving DecidableEq, Repr

/-- `injectParam` for the call site, in the context with the given number. -/
def injectParam (p : Site) (id : RegistryId) (s : Program) :
    Except Failure DeferredHandle × Program :=
  let core := (s.contexts id).core
  let scopeName := internScopeNameCached id core.nameInterning p.scopeName s.scopeCache
  let b := (s.contexts id).withCore (core.withNames scopeName.2.1)
  let name := candidateName p id scopeName.2.1 s.candidateCache
  (name.1.bind fun nameId => (deferredTarget b p.type nameId).map fun d => ⟨scopeName.1, d⟩,
    { s.setContext id b with scopeCache := scopeName.2.2, candidateCache := name.2 })

/-- The error of `BeanContext::resolve` for an unknown name. -/
def resolveUnknownQualifier (name : String) : Failure :=
  .resolutionError ("BeanContext::resolve: unknown named qualifier '" ++ name ++ "'.")

/-- The selection of `resolve<U>()` and `resolve<U>(named)` from a scope. -/
def resolveSelection (b : BeanContext) (scope : ScopeId) (type : CppType) (named : Option String) :
    Except Failure DescriptorId :=
  match named.elim (some kUnnamed) b.core.nameInterning.lookup with
  | none => .error (resolveUnknownQualifier (named.getD ""))
  | some nameId =>
    if !b.core.started then .error notStarted
    else match b.core.typeInterning.lookupByTypeIndex type.index with
      | none => .error unregisteredType
      | some typeId => b.select (some scope) typeId nameId

/-- What happens in the program: calls on a context, a start that is rolled back or a stop up to
    the callbacks that they run, and the call site. -/
inductive Action
  | call (id : RegistryId) (c : Call)
  | rollback (id : RegistryId)
  | stop (id : RegistryId)
  | inject (id : RegistryId)

def step (p : Site) (s : Program) : Action → Option Program
  | .call id c => some (s.setContext id ((s.contexts id).exec c).state)
  | .rollback id => some (s.setContext id
      ((s.contexts id).withCore (s.contexts id).core.rollbackFailedStart))
  | .stop id =>
    some (s.setContext id ((s.contexts id).withCore (s.contexts id).core.stopOwnedBeans))
  | .inject id => some (injectParam p id s).2

/-- The program with the call site. -/
def machine (p : Site) : Machine Program Action where
  Init s := ∃ (S : StdSort) (self : RegistryId → Addr),
    s = { contexts := fun id => .fresh S (self id) }
  step := step p

/-! ## The caches of the call site -/

variable {p : Site} {s : Program} {id : RegistryId}

/-- What a cache holds for a registry is the identifier of the name. -/
def SiteCache.Tells (cache : SiteCache) (name : String) (s : Program) : Prop :=
  ∀ id nameId, cache.find? id = some nameId →
    (s.contexts id).core.nameInterning.lookup name = some nameId

/-- What holds in every run. -/
structure Kept (p : Site) (s : Program) : Prop where
  sound : ∀ id, (s.contexts id).Sound
  heads : ∀ id, (s.contexts id).core.typeIndex.HeadsListed
  scopeName : s.scopeCache.Tells p.scopeName s
  named : ∀ name, p.named = some name → s.candidateCache.Tells name s

@[simp] theorem contexts_setContext_self (s : Program) (id : RegistryId) (b : BeanContext) :
    (s.setContext id b).contexts id = b := Function.update_self ..

theorem contexts_setContext_of_ne {id' : RegistryId} (h : id' ≠ id) (b : BeanContext) :
    (s.setContext id b).contexts id' = s.contexts id' := Function.update_of_ne h ..

theorem SiteCache.Tells.setContext {cache : SiteCache} {name : String} (h : cache.Tells name s)
    {b : BeanContext} (hb : (s.contexts id).core.Onward b.core) :
    cache.Tells name (s.setContext id b) := by
  intro id' nameId hcache
  have hold := h id' nameId hcache
  by_cases hid : id' = id
  · subst hid
    rw [contexts_setContext_self]
    exact hb.names _ _ hold
  · rwa [contexts_setContext_of_ne hid]

/-- One of the contexts goes on. -/
theorem Kept.setContext (h : Kept p s) {b : BeanContext} (hsound : b.Sound)
    (hb : (s.contexts id).core.Onward b.core) : Kept p (s.setContext id b) := by
  refine ⟨fun id' => ?_, fun id' => ?_, h.scopeName.setContext hb,
    fun name hname => (h.named name hname).setContext hb⟩ <;>
    by_cases hid : id' = id
  · subst hid
    rwa [contexts_setContext_self]
  · rw [contexts_setContext_of_ne hid]
    exact h.sound id'
  · subst hid
    rw [contexts_setContext_self]
    exact hb.heads (h.heads id')
  · rw [contexts_setContext_of_ne hid]
    exact h.heads id'

theorem intern_of_lookup {ni : NameInterning} {name : String} {nameId : NameId}
    (h : ni.lookup name = some nameId) : ni.intern name = (nameId, ni) := by
  unfold NameInterning.lookup at h
  unfold NameInterning.intern
  split_ifs at h ⊢
  · obtain rfl := Option.some.inj h
    rfl
  · rw [h]

theorem lookup_intern_self {ni : NameInterning} (h : ni.Valid) (name : String) :
    (ni.intern name).2.lookup name = some (ni.intern name).1 :=
  (NameInterning.lookup_eq_some_iff (h.intern name)).mpr
    ⟨NameInterning.intern_lt h name, NameInterning.nameOf_intern_self h name⟩

/-- The cache makes no difference to what is interned. -/
theorem internScopeNameCached_eq {ni : NameInterning} {name : String} {cache : SiteCache}
    (h : ∀ nameId, cache.find? id = some nameId → ni.lookup name = some nameId) :
    (internScopeNameCached id ni name cache).2.1 = (ni.intern name).2 := by
  unfold internScopeNameCached
  split_ifs with hname
  · rw [NameInterning.intern, if_pos hname]
  · split
    · next nameId hcache => rw [intern_of_lookup (h nameId hcache)]
    · rfl

theorem find?_some {id' : RegistryId} {nameId nameId' : NameId}
    (h : SiteCache.find? (some (id, nameId)) id' = some nameId') : id' = id ∧ nameId' = nameId := by
  obtain ⟨hid, heq⟩ := Option.ite_none_right_eq_some.mp h
  exact ⟨hid.symm, (Option.some.inj heq).symm⟩

/-- The cache makes no difference to what is looked up. -/
theorem lookupCached_eq {ni : NameInterning} {name : String} {cache : SiteCache}
    (h : ∀ nameId, cache.find? id = some nameId → ni.lookup name = some nameId) :
    (lookupCached id ni name cache).1 = ni.lookup name := by
  unfold lookupCached
  split
  · next nameId hcache => exact (h nameId hcache).symm
  · split
    · next hlookup => exact hlookup.symm
    · next hlookup => exact hlookup.symm

theorem candidateName_eq {ni : NameInterning} {cache : SiteCache}
    (h : ∀ name, p.named = some name → ∀ nameId, cache.find? id = some nameId →
      ni.lookup name = some nameId) : (candidateName p id ni cache).1 =
        match p.named.elim (some kUnnamed) ni.lookup with
        | none => .error (unknownQualifier (p.named.getD ""))
        | some nameId => .ok nameId := by
  unfold candidateName
  cases hnamed : p.named with
  | none => rfl
  | some name =>
    have hlookup := lookupCached_eq (h name hnamed)
    simp only [Option.elim_some, Option.getD_some, ← hlookup]
    split
    · next hcached => rw [hcached]
    · next hcached => rw [hcached]

/-- The context with the name of the scope interned. -/
def interned (p : Site) (b : BeanContext) : BeanContext :=
  b.withCore (b.core.withNames (b.core.nameInterning.intern p.scopeName).2)

/-- The name under which the call site looks for candidates, if it is known. -/
def Site.nameIn (p : Site) (b : BeanContext) : Option NameId :=
  p.named.elim (some kUnnamed) (interned p b).core.nameInterning.lookup

theorem map_bind_map {α β γ : Type*} {g : β → γ} {h : γ → β} (hgh : ∀ b, h (g b) = b)
    (x : Except Failure α) (f : α → Except Failure β) :
    (x.bind fun a => (f a).map g).map h = x.bind f := by
  cases x with
  | error e => rfl
  | ok a =>
    change ((f a).map g).map h = f a
    cases f a with
    | error e => rfl
    | ok b => exact congrArg Except.ok (hgh b)

/-- What the call site does, in terms of the names of its context. -/
theorem Kept.injectParam (h : Kept p s) (id : RegistryId) :
    (injectParam p id s).2.contexts id = interned p (s.contexts id) ∧
      (injectParam p id s).1.map DeferredHandle.descId =
        match p.nameIn (s.contexts id) with
        | none => .error (unknownQualifier (p.named.getD ""))
        | some nameId => deferredTarget (interned p (s.contexts id)) p.type nameId := by
  have hintern := internScopeNameCached_eq (h.scopeName id)
  have hcore : (s.contexts id).withCore ((s.contexts id).core.withNames
      (internScopeNameCached id (s.contexts id).core.nameInterning p.scopeName
        s.scopeCache).2.1) = interned p (s.contexts id) := by
    rw [hintern]
    rfl
  refine ⟨(contexts_setContext_self ..).trans hcore, ?_⟩
  have hname : (candidateName p id (interned p (s.contexts id)).core.nameInterning
      s.candidateCache).1 = _ := candidateName_eq
    fun name hnamed nameId hcache => lookup_intern (h.named name hnamed id nameId hcache)
  have hresult : (Deferred.injectParam p id s).1.map DeferredHandle.descId =
      (candidateName p id (interned p (s.contexts id)).core.nameInterning s.candidateCache).1.bind
        (deferredTarget (interned p (s.contexts id)) p.type) := by
    unfold Deferred.injectParam
    rw [map_bind_map fun _ => rfl, hcore, hintern]
    rfl
  rw [hresult, hname]
  change (match p.nameIn (s.contexts id) with
    | none => Except.error (unknownQualifier (p.named.getD ""))
    | some nameId => Except.ok nameId).bind _ = _
  cases p.nameIn (s.contexts id) <;> rfl

theorem sound_interned {b : BeanContext} (h : b.Sound) : (interned p b).Sound :=
  ⟨h.indexed.internName _, h.flagged.withCore rfl rfl, h.pending, h.begun⟩

theorem onward_interned (b : BeanContext) : b.core.Onward (interned p b).core :=
  .intern b.core p.scopeName

theorem sound_stopOwnedBeans {b : BeanContext} (h : b.Sound) :
    (b.withCore b.core.stopOwnedBeans).Sound := by
  unfold Registry.stopOwnedBeans
  split_ifs
  · exact ⟨h.indexed, h.flagged.withCore rfl rfl, h.pending, nofun⟩
  · exact h

theorem onward_stopOwnedBeans (r : Registry) : r.Onward r.stopOwnedBeans := by
  unfold Registry.stopOwnedBeans
  split_ifs <;> exact .of_eq rfl rfl

theorem Kept.tells_scopeName (h : Kept p s) (id : RegistryId) :
    (internScopeNameCached id (s.contexts id).core.nameInterning p.scopeName
      s.scopeCache).2.2.Tells p.scopeName (s.setContext id (interned p (s.contexts id))) := by
  have hold := h.scopeName.setContext (onward_interned (p := p) (s.contexts id))
  unfold internScopeNameCached
  split_ifs
  · exact hold
  · split
    · exact hold
    · intro id' nameId hfind
      obtain ⟨rfl, rfl⟩ := find?_some hfind
      rw [contexts_setContext_self]
      exact lookup_intern_self (h.sound id').indexed.names p.scopeName

theorem Kept.tells_named (h : Kept p s) (id : RegistryId) {name : String}
    (hname : p.named = some name) :
    (candidateName p id (interned p (s.contexts id)).core.nameInterning
      s.candidateCache).2.Tells name (s.setContext id (interned p (s.contexts id))) := by
  have hold := (h.named name hname).setContext
    (onward_interned (p := p) (s.contexts id))
  have hlookup : (lookupCached id (interned p (s.contexts id)).core.nameInterning name
      s.candidateCache).2.Tells name (s.setContext id (interned p (s.contexts id))) := by
    unfold lookupCached
    split
    · exact hold
    · split
      · next nameId hlookup =>
        intro id' nameId' hfind
        obtain ⟨rfl, rfl⟩ := find?_some hfind
        rw [contexts_setContext_self]
        exact hlookup
      · exact hold
  unfold candidateName
  rw [hname]
  dsimp only
  split <;> next hcached => rwa [hcached] at hlookup

theorem Kept.step (h : Kept p s) {a : Action} {s' : Program} (hstep : step p s a = some s') :
    Kept p s' := by
  cases a with
  | call id c =>
    obtain ⟨⟩ := hstep
    exact h.setContext ((h.sound id).exec c) ((s.contexts id).exec_onward c)
  | rollback id =>
    obtain ⟨⟩ := hstep
    let cleared := (s.contexts id).withCore
      { (s.contexts id).core with startLifecyclePending := [] }
    have hcleared : cleared.Sound :=
      ⟨(h.sound id).indexed, (h.sound id).flagged.withCore rfl rfl, (h.sound id).pending,
        (h.sound id).begun⟩
    have hsame : (s.contexts id).core.Onward cleared.core := .of_eq rfl rfl
    exact h.setContext (sound_stopOwnedBeans hcleared)
      (hsame.trans (onward_stopOwnedBeans cleared.core))
  -- A stop keeps the names and the index.
  | stop id =>
    obtain ⟨⟩ := hstep
    exact h.setContext (sound_stopOwnedBeans (h.sound id)) (onward_stopOwnedBeans _)
  | inject id =>
    obtain ⟨⟩ := hstep
    have hnext := h.setContext (sound_interned (p := p) (h.sound id))
      (onward_interned (s.contexts id))
    -- The cache holds the name of the scope for this registry, or it is interned now.
    have hintern := internScopeNameCached_eq (h.scopeName id)
    have hcore : (s.contexts id).withCore ((s.contexts id).core.withNames
        (internScopeNameCached id (s.contexts id).core.nameInterning p.scopeName
          s.scopeCache).2.1) = interned p (s.contexts id) := by
      rw [hintern]
      rfl
    refine ⟨?_, ?_, ?_, ?_⟩ <;> simp only [Deferred.injectParam, hcore]
    · exact hnext.sound
    · exact hnext.heads
    · exact h.tells_scopeName id
    · intro name hname
      rw [hintern]
      exact h.tells_named id hname

theorem Kept.of_reachable (h : (machine p).Reachable s) : Kept p s := by
  refine h.invariant ?_ fun s a s' hs hstep => hs.step hstep
  rintro s ⟨S, self, rfl⟩
  exact ⟨fun id => BeanContext.sound_fresh S (self id), fun _ _ _ _ _ => nofun, fun _ _ => nofun,
    fun _ _ _ _ => nofun⟩

/-! ## The two selections -/

section Selections

variable (r : Registry) (typeId : TypeId) (nameId : NameId)

def candidates : List DescriptorId := (r.typeIndex.candidatesFor typeId nameId).getD []

/-- What the caches of the index hold for a key agrees with its candidate vector. -/
structure UpToDate : Prop where
  single : nameId = kUnnamed → ∀ d, r.typeIndex.singleUnnamed typeId = some d →
    first r.priorityOf (candidates r typeId nameId) = some d
  head : (nameId = kUnnamed → r.typeIndex.singleUnnamed typeId = none) →
    ∀ e d, r.typeIndex.entries typeId nameId = some e → e.head = some d →
      first r.priorityOf e.candidates = if e.ambiguous then none else some d

/-- The entry of the key has a tie: by its flag, or between its first two candidates if its head
    is not cached. -/
def Tied : Prop :=
  ∃ e, r.typeIndex.entries typeId nameId = some e ∧
    match e.head with
    | some _ => e.ambiguous = true
    | none => e.candidates ≠ [] ∧ first r.priorityOf e.candidates = none

end Selections

/-- The name under which a resolution from the scope looks is the one that is written, and the
    caches of its key are up to date; or there are no candidates under both names, or ties. -/
inductive Alike (b : BeanContext) (scope : ScopeId) (typeId : TypeId) (nameId : NameId) : Prop
  | written : b.effectiveName (some scope) typeId nameId = nameId → UpToDate b.core typeId nameId →
      Alike b scope typeId nameId
  | empty : b.effectiveName (some scope) typeId nameId ≠ nameId →
      candidates b.core typeId nameId = [] →
      candidates b.core typeId (b.effectiveName (some scope) typeId nameId) = [] →
      Alike b scope typeId nameId
  | tied : b.effectiveName (some scope) typeId nameId ≠ nameId →
      candidates b.core typeId nameId ≠ [] →
      first b.core.priorityOf (candidates b.core typeId nameId) = none →
      Tied b.core typeId (b.effectiveName (some scope) typeId nameId) →
      Alike b scope typeId nameId

variable {r : Registry} {b : BeanContext} {scope : ScopeId} {typeId : TypeId} {nameId : NameId}
  {priorityOf : DescriptorId → ℤ} {l : List DescriptorId} {d : DescriptorId}

theorem selectFallback_eq_ok_iff :
    selectFallback priorityOf l = .ok d ↔ first priorityOf l = some d := by
  rw [BeanContext.selectFallback_eq]
  cases first priorityOf l <;> simp

theorem selectFallback_eq_noBean_iff : selectFallback priorityOf l = .error noBean ↔ l = [] := by
  rw [BeanContext.selectFallback_eq]
  rcases l with _ | ⟨a, l⟩
  · simp [first]
  · cases first priorityOf (a :: l) <;> simp [noBean, ambiguousResolution]

theorem selectFallback_eq_ambiguous_iff :
    selectFallback priorityOf l = .error ambiguousResolution ↔
      l ≠ [] ∧ first priorityOf l = none := by
  rw [BeanContext.selectFallback_eq]
  rcases l with _ | ⟨a, l⟩
  · simp [first, noBean, ambiguousResolution]
  · cases first priorityOf (a :: l) <;> simp

theorem selectFallback_cases (priorityOf : DescriptorId → ℤ) (l : List DescriptorId) :
    (∃ d, selectFallback priorityOf l = .ok d) ∨ selectFallback priorityOf l = .error noBean ∨
      selectFallback priorityOf l = .error ambiguousResolution := by
  rw [BeanContext.selectFallback_eq]
  cases first priorityOf l with
  | some d => exact .inl ⟨d, rfl⟩
  | none =>
    dsimp only
    split_ifs
    · exact .inr (.inl rfl)
    · exact .inr (.inr rfl)

/-- A candidate has the type and the name of its key. -/
theorem mem_candidates (h : r.Indexed) (hd : d ∈ candidates r typeId nameId) :
    ∃ desc, r.descriptors[d]? = some desc ∧ desc.exposedType = typeId ∧ desc.name = nameId :=
  mem_keyIds.mp ((h.inserted typeId nameId).mem_iff.mp (List.mem_append_left _ hd))

/-- A selected descriptor is a candidate. -/
theorem mem_of_selectFallback (h : selectFallback priorityOf l = .ok d) : d ∈ l := by
  rcases l with _ | ⟨a, _ | ⟨a', l⟩⟩
  · cases h
  · obtain ⟨⟩ := h
    exact List.mem_cons_self
  · simp only [selectFallback] at h
    split_ifs at h
    obtain ⟨⟩ := h
    exact List.mem_cons_self

/-- Without the cache of the only candidate: what the entry of a key gives. -/
theorem selectEntry_eq_iff (hheads : r.typeIndex.HeadsListed) :
    selectEntry r.priorityOf (r.typeIndex.entries typeId nameId) =
        selectFallback r.priorityOf (candidates r typeId nameId) ↔
      ∀ e d, r.typeIndex.entries typeId nameId = some e → e.head = some d →
        first r.priorityOf e.candidates = if e.ambiguous then none else some d := by
  unfold candidates TypeIndex.candidatesFor
  cases hentry : r.typeIndex.entries typeId nameId with
  | none => simp [selectEntry, selectFallback]
  | some e =>
    have hall : (∀ e' d, some e = some e' → e'.head = some d →
        first r.priorityOf e'.candidates = if e'.ambiguous then none else some d) ↔
          ∀ d, e.head = some d →
            first r.priorityOf e.candidates = if e.ambiguous then none else some d :=
      ⟨fun h d => h e d rfl, fun h e' d he => Option.some.inj he ▸ h d⟩
    rw [hall]
    cases hhead : e.head with
    | none => simp [selectEntry, hhead]
    | some d =>
      have hne : e.candidates ≠ [] := List.ne_nil_of_mem (hheads _ _ e d hentry hhead)
      simp only [selectEntry, hhead, Option.map_some, Option.getD_some, Option.some.injEq,
        forall_eq']
      cases hambiguous : e.ambiguous with
      | true =>
        rw [if_pos rfl, if_pos rfl, eq_comm, selectFallback_eq_ambiguous_iff]
        exact and_iff_right hne
      | false =>
        rw [if_neg Bool.false_ne_true, if_neg Bool.false_ne_true, eq_comm,
          selectFallback_eq_ok_iff]

/-- The caches are up to date exactly if they give what the candidate vector gives. -/
theorem selectKey_eq_iff (hheads : r.typeIndex.HeadsListed) :
    selectKey r typeId nameId = selectFallback r.priorityOf (candidates r typeId nameId) ↔
      UpToDate r typeId nameId := by
  unfold BeanContext.selectKey
  by_cases hname : nameId = kUnnamed
  · rw [if_pos hname]
    cases hsingle : r.typeIndex.singleUnnamed typeId with
    | some d =>
      rw [eq_comm, selectFallback_eq_ok_iff]
      constructor
      · intro hfirst
        refine ⟨fun _ d' hd' => ?_, fun hnone => ?_⟩
        · rw [← Option.some.inj (hsingle.symm.trans hd')]
          exact hfirst
        · rw [hnone hname] at hsingle
          cases hsingle
      · exact fun h => h.single hname d hsingle
    | none =>
      rw [selectEntry_eq_iff hheads]
      refine ⟨fun h => ⟨fun _ d hd => ?_, fun _ => h⟩, fun h => h.head fun _ => hsingle⟩
      rw [hd] at hsingle
      cases hsingle
  · rw [if_neg hname]
    refine (selectEntry_eq_iff hheads).trans ⟨fun h => ⟨fun hn => absurd hn hname, fun _ => h⟩, ?_⟩
    exact fun h => h.head fun hn => absurd hn hname

theorem mem_of_selectEntry (hheads : r.typeIndex.HeadsListed)
    (h : selectEntry r.priorityOf (r.typeIndex.entries typeId nameId) = .ok d) :
    d ∈ candidates r typeId nameId := by
  unfold candidates TypeIndex.candidatesFor
  cases hentry : r.typeIndex.entries typeId nameId with
  | none =>
    rw [hentry] at h
    cases h
  | some e =>
    rw [hentry] at h
    cases hhead : e.head with
    | none =>
      simp only [selectEntry, hhead] at h
      exact mem_of_selectFallback h
    | some d' =>
      simp only [selectEntry, hhead] at h
      split_ifs at h
      obtain ⟨⟩ := h
      exact hheads _ _ e d hentry hhead

theorem selectEntry_eq_noBean_iff (hheads : r.typeIndex.HeadsListed) :
    selectEntry r.priorityOf (r.typeIndex.entries typeId nameId) = .error noBean ↔
      candidates r typeId nameId = [] := by
  unfold candidates TypeIndex.candidatesFor
  cases hentry : r.typeIndex.entries typeId nameId with
  | none => simp [selectEntry]
  | some e =>
    cases hhead : e.head with
    | none =>
      simp only [selectEntry, hhead, Option.map_some, Option.getD_some]
      exact selectFallback_eq_noBean_iff
    | some d =>
      have hne : e.candidates ≠ [] := List.ne_nil_of_mem (hheads _ _ e d hentry hhead)
      simp only [selectEntry, hhead, Option.map_some, Option.getD_some, hne, iff_false]
      split_ifs <;> simp [noBean, ambiguousResolution]

theorem selectEntry_eq_ambiguous_iff :
    selectEntry r.priorityOf (r.typeIndex.entries typeId nameId) = .error ambiguousResolution ↔
      Tied r typeId nameId := by
  unfold Tied
  cases hentry : r.typeIndex.entries typeId nameId with
  | none => simp [selectEntry, noBean, ambiguousResolution]
  | some e =>
    simp only [Option.some.injEq, exists_eq_left']
    cases hhead : e.head with
    | none =>
      simp only [selectEntry, hhead]
      exact selectFallback_eq_ambiguous_iff
    | some d =>
      simp only [selectEntry, hhead]
      split_ifs with hambiguous <;> simp [hambiguous]

/-- A resolution from the scope selects what the candidate vector of the written name gives. -/
theorem selectKey_effectiveName_iff (hb : b.Sound) (hheads : b.core.typeIndex.HeadsListed) :
    selectKey b.core typeId (b.effectiveName (some scope) typeId nameId) =
        selectFallback b.core.priorityOf (candidates b.core typeId nameId) ↔
      Alike b scope typeId nameId := by
  by_cases hwritten : b.effectiveName (some scope) typeId nameId = nameId
  · rw [hwritten, selectKey_eq_iff hheads]
    constructor
    · exact .written hwritten
    · rintro (⟨-, h⟩ | ⟨hne, -, -⟩ | ⟨hne, -, -, -⟩)
      · exact h
      · exact absurd hwritten hne
      · exact absurd hwritten hne
  · -- A default name is followed.
    have hname : nameId = kUnnamed := by
      by_contra hname
      exact hwritten (if_neg hname)
    have hentry : selectKey b.core typeId (b.effectiveName (some scope) typeId nameId) =
        selectEntry b.core.priorityOf
          (b.core.typeIndex.entries typeId (b.effectiveName (some scope) typeId nameId)) := by
      rw [BeanContext.selectKey, if_neg fun heq => hwritten (heq.trans hname.symm)]
    rw [hentry]
    rcases selectFallback_cases b.core.priorityOf (candidates b.core typeId nameId) with
      ⟨d, hd⟩ | hnone | htie
    · -- A descriptor has one name.
      rw [hd]
      refine iff_of_false (fun heq => hwritten ?_) ?_
      · obtain ⟨desc, hdesc, -, hdefault⟩ :=
          mem_candidates hb.indexed (mem_of_selectEntry hheads heq)
        obtain ⟨_, hdesc', -, hunnamed⟩ := mem_candidates hb.indexed (mem_of_selectFallback hd)
        obtain rfl := Option.some.inj (hdesc.symm.trans hdesc')
        exact hdefault.symm.trans hunnamed
      · rintro (⟨h, -⟩ | ⟨-, hempty, -⟩ | ⟨-, -, hfirst, -⟩)
        · exact hwritten h
        · rw [selectFallback_eq_noBean_iff.mpr hempty] at hd
          cases hd
        · rw [selectFallback_eq_ok_iff, hfirst] at hd
          cases hd
    · rw [hnone, selectEntry_eq_noBean_iff hheads]
      have hempty := selectFallback_eq_noBean_iff.mp hnone
      refine ⟨.empty hwritten hempty, ?_⟩
      rintro (⟨h, -⟩ | ⟨-, -, h⟩ | ⟨-, hne, -, -⟩)
      · exact absurd h hwritten
      · exact h
      · exact absurd hempty hne
    · rw [htie, selectEntry_eq_ambiguous_iff]
      obtain ⟨hne, hfirst⟩ := selectFallback_eq_ambiguous_iff.mp htie
      refine ⟨.tied hwritten hne hfirst, ?_⟩
      rintro (⟨h, -⟩ | ⟨-, hempty, -⟩ | ⟨-, -, -, h⟩)
      · exact absurd h hwritten
      · exact absurd hempty hne
      · exact h

/-! ## Scoped injection and resolution -/

/-- The outcomes are the same, up to the function that the text about an unknown name begins
    with. -/
inductive SameOutcome : Except Failure DescriptorId → Except Failure DescriptorId → Prop
  | refl (x : Except Failure DescriptorId) : SameOutcome x x
  | unknown (name : String) :
      SameOutcome (.error (unknownQualifier name)) (.error (resolveUnknownQualifier name))

/-- The descriptor of the handle, or the error, is what a resolution of the type with the same
    name from the scope selects at that moment. -/
def SelectsLikeResolve (p : Site) (s : Program) (id : RegistryId) (scope : ScopeId) : Prop :=
  SameOutcome ((injectParam p id s).1.map DeferredHandle.descId)
    (resolveSelection ((injectParam p id s).2.contexts id) scope p.type p.named)

/-- The registry is started, and the selections are alike, unless the name or the type is
    unknown. -/
def FollowsNoDefault (p : Site) (b : BeanContext) (scope : ScopeId) : Prop :=
  ∀ nameId, p.nameIn b = some nameId → b.core.started = true ∧
    ∀ typeId, b.core.typeInterning.lookupByTypeIndex p.type.index = some typeId →
      Alike b scope typeId nameId

/-- The text of an error begins with the function that reports it. -/
theorem startsWith_unknownQualifier (name : String) : ∃ text,
    unknownQualifier name = .resolutionError text ∧ text.toList.head? = some 'i' :=
  ⟨_, rfl, by simp⟩

theorem sameOutcome_iff {x y : Except Failure DescriptorId}
    (hx : ∀ name, x ≠ .error (unknownQualifier name)) : SameOutcome x y ↔ x = y := by
  constructor
  · rintro (_ | name)
    · rfl
    · exact absurd rfl (hx name)
  · rintro rfl
    exact .refl x

theorem deferredTarget_cases (b : BeanContext) (type : CppType) (nameId : NameId) :
    (∃ d, deferredTarget b type nameId = .ok d) ∨ ∃ text,
      deferredTarget b type nameId = .error (.resolutionError text) ∧
        text.toList.head? = some 'R' := by
  unfold deferredTarget
  split
  · exact .inr ⟨_, rfl, by simp⟩
  · rcases selectFallback_cases b.core.priorityOf _ with hd | h | h
    · exact .inl hd
    · exact .inr ⟨_, h, by simp⟩
    · exact .inr ⟨_, h, by simp⟩

theorem deferredTarget_ne_unknown (b : BeanContext) (type : CppType) (nameId : NameId)
    (name : String) : deferredTarget b type nameId ≠ .error (unknownQualifier name) := by
  obtain ⟨text, htext, hhead⟩ := startsWith_unknownQualifier name
  rw [htext]
  rcases deferredTarget_cases b type nameId with ⟨d, hd⟩ | ⟨text', h, hhead'⟩
  · rw [hd]
    exact nofun
  · rw [h]
    rintro ⟨⟩
    rw [hhead] at hhead'
    cases hhead'

theorem deferredTarget_ne_notStarted (b : BeanContext) (type : CppType) (nameId : NameId) :
    deferredTarget b type nameId ≠ .error notStarted := by
  rcases deferredTarget_cases b type nameId with ⟨d, hd⟩ | ⟨text, h, -⟩
  · rw [hd]
    exact nofun
  · rw [h]
    exact nofun

/-- The call site selects like a resolution from the scope exactly if no default name makes a
    difference and the caches of the index are up to date. -/
theorem selects_like_resolve_iff (h : (machine p).Reachable s) (id : RegistryId) (scope : ScopeId) :
    SelectsLikeResolve p s id scope ↔ FollowsNoDefault p (s.contexts id) scope := by
  have hkept := Kept.of_reachable h
  obtain ⟨hcontext, hresult⟩ := hkept.injectParam id
  have hsound := hkept.sound id
  have hheads := hkept.heads id
  rw [SelectsLikeResolve, hcontext, hresult]
  set b := s.contexts id
  have hname : p.named.elim (some kUnnamed) (interned p b).core.nameInterning.lookup =
      p.nameIn b := rfl
  unfold resolveSelection FollowsNoDefault
  -- The injection interns the name first, so that it is known to both or unknown to both.
  rw [hname]
  cases hnameId : p.nameIn b with
  | none => exact iff_of_true (.unknown _) nofun
  | some nameId =>
    simp only [Option.some.injEq, forall_eq']
    rw [sameOutcome_iff (deferredTarget_ne_unknown _ _ _)]
    have hsame : (interned p b).core.started = b.core.started := rfl
    rw [hsame]
    cases hstarted : b.core.started with
    | false =>
      refine iff_of_false (deferredTarget_ne_notStarted _ _ _) ?_
      rintro ⟨⟨⟩, -⟩
    | true =>
      have htypes : (interned p b).core.typeInterning = b.core.typeInterning := rfl
      simp only [Bool.not_true, Bool.false_eq_true, if_false, true_and]
      unfold deferredTarget
      rw [htypes]
      -- Both go on from the same type and the same selection, with the default or without it.
      cases htype : b.core.typeInterning.lookupByTypeIndex p.type.index with
      | none => exact iff_of_true rfl nofun
      | some typeId =>
        have hselect : (interned p b).select (some scope) typeId nameId =
            selectKey b.core typeId (b.effectiveName (some scope) typeId nameId) := by
          unfold BeanContext.select
          rw [hsame, hstarted]
          rfl
        simp only [hselect, Option.some.injEq, forall_eq']
        rw [eq_comm]
        exact selectKey_effectiveName_iff hsound hheads

/-! ## Examples -/

def logger : CppType := ⟨"Logger", 1⟩

/-- A parameter of type `Bean<Logger>` that is annotated `scoped` only. -/
def loggerParam : Site where
  type := logger
  scopeName := "request"

/-- Two session beans, of which the second one is named. -/
def discoverLoggers : Call :=
  .discover [
    { identity := 1, exposedType := logger, concreteType := logger, lifetime := .session },
    { identity := 2, exposedType := logger, concreteType := logger, beanName := "file"
      lifetime := .session }]

/-- The parameter is injected once before. -/
def injectLogger : List Action := [.call 0 discoverLoggers, .call 0 .start, .inject 0]

theorem logger_selected : ∃ s,
    (machine loggerParam).run { contexts := fun _ => .initial } injectLogger = some s ∧
      (injectParam loggerParam 0 s).1 = .ok ⟨2, 0⟩ ∧ SelectsLikeResolve loggerParam s 0 0 := by
  have hinit : (machine loggerParam).Reachable { contexts := fun _ => .initial } :=
    .init ⟨_, fun _ => 0, rfl⟩
  have hrun : (machine loggerParam).run { contexts := fun _ => .initial }
    injectLogger = some _ := rfl
  refine ⟨_, hrun, by decide, (selects_like_resolve_iff (hinit.run hrun) 0 0).mpr ?_⟩
  rintro nameId ⟨⟩
  refine ⟨by decide, fun typeId htype => ?_⟩
  obtain ⟨⟩ := htype
  refine .written (by decide) ⟨fun _ d hd => ?_, fun h => ?_⟩
  · obtain ⟨⟩ := hd
    decide
  · exact absurd (h rfl) (by decide)

/-- The default name of the root leads a resolution from the scope to the named bean, while the
    parameter gets the unnamed one. -/
theorem default_ignored : ∃ s,
    (machine loggerParam).run { contexts := fun _ => .initial }
      [.call 0 discoverLoggers, .call 0 .start, .call 0 (.defaultNamed none logger "file")] =
        some s ∧
      (injectParam loggerParam 0 s).1 = .ok ⟨2, 0⟩ ∧
      resolveSelection ((injectParam loggerParam 0 s).2.contexts 0) 0 logger none = .ok 1 ∧
      ¬SelectsLikeResolve loggerParam s 0 0 := by
  refine ⟨_, rfl, by decide, by decide, fun h => ?_⟩
  have heq := (sameOutcome_iff fun name => ?_).mp h
  · exact absurd heq (by decide)
  · exact nofun

end Deferred

end Ctorium
