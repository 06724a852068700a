import Ctorium.Registry.InjectionPoints
import Ctorium.Registry.Producers

/-!
# Retained metadata

A discovery with `retainAllMetadata` contributes the method records of the annotated
types that it scans; the descriptors of all other contributions, and those of a discovery
without the option, carry none. Phase 1 of the start makes a descriptor for the first
contribution of an identity, with the records of this contribution, and drops the others
of the same identity with theirs.

* `carries_iff`: the descriptor of an identity carries the records of the first contribution.
* `retention_iff`: the descriptors of the scanned types carry records exactly if the types
  were retained somewhere, if and only if this is so for their first contributions.
* `retained_second`: of two discoveries of a type, the second one with the option.
-/

namespace Ctorium.Retention

open Attempt InjectionPoints
open Function (update)

/-! ## Reflective data -/

/-- What `std::meta` says of a member of a type. -/
structure Member where
  identifier : String
  isType : Bool := false
  isSpecialMemberFunction : Bool := false
  isConstructor : Bool := false
  postConstruct : Bool := false
  preDestroy : Bool := false
  params : List CppType := []

structure BeanMethodRecord where
  name : String
  isPostConstruct : Bool
  isPreDestroy : Bool
  params : List CppType
  deriving DecidableEq

/-- The retained method table of a bean type. -/
abbrev BeanReflectiveData := List BeanMethodRecord

/-- A member of which a record is made. -/
def Member.qualifies (m : Member) : Bool :=
  !m.isType && !m.isSpecialMemberFunction && !m.isConstructor

def Member.toRecord (m : Member) : BeanMethodRecord :=
  ⟨m.identifier, m.postConstruct, m.preDestroy, m.params⟩

/-- `makeReflectiveData`: there is none without members to record. -/
def makeReflectiveData (members : List Member) : Option BeanReflectiveData :=
  if (members.filter Member.qualifies).length = 0 then none
  else some ((members.filter Member.qualifies).map Member.toRecord)

/-! ## Contributions -/

/-- A contributed descriptor with its reflective data. -/
structure Contribution where
  descriptor : ContributedDescriptor
  reflectiveData : Option BeanReflectiveData := none

/-- A call of `discover<Roots...>(options)`. -/
structure Discovery where
  entities : List DiscoveredEntity
  retainAllMetadata : Bool := false

section Contributions

variable (H : IdentityHashes) (membersOf : CppType → List Member)

/-- `makeAllDescriptors<RetainMeta, Roots...>`. -/
def makeAllDescriptors (retainMeta : Bool) (entities : List DiscoveredEntity) :
    List Contribution :=
  entities.flatMap fun
    | .annotatedType type bases ann members =>
      ⟨makeDescriptorForAnnotatedType H type ann members,
          if retainMeta then makeReflectiveData (membersOf type) else none⟩ ::
        (makeExposedDescriptors H type bases ann).map fun cd => { descriptor := cd }
    | .factory type _ => [{ descriptor := makeDescriptorForFactory H type }]
    | .factoryProduct declaringFactory method ann _ productType _ _ =>
      [{ descriptor := makeDescriptorForProduct H declaringFactory method ann productType }]

/-- `submitDiscoveryContribution`, for one call after the other. -/
def submitted (ds : List Discovery) : List Contribution :=
  ds.flatMap fun d => makeAllDescriptors H membersOf d.retainAllMetadata d.entities

/-- Without the reflective data, these are the contributions of the start. -/
theorem map_descriptor_makeAllDescriptors (retainMeta : Bool) (entities : List DiscoveredEntity) :
    (makeAllDescriptors H membersOf retainMeta entities).map Contribution.descriptor =
      InjectionPoints.makeAllDescriptors H entities := by
  rw [makeAllDescriptors, InjectionPoints.makeAllDescriptors, List.map_flatMap]
  refine congrArg (fun f => List.flatMap f entities) (funext fun e => ?_)
  cases e <;> simp [List.map_map, Function.comp_def]

end Contributions

/-! ## Phase 1 -/

/-- The registry during its start, and the field `reflectiveData` of its descriptors. -/
structure MergeState where
  start : Registry.StartState
  reflectiveData : DescriptorId → Option BeanReflectiveData := fun _ => none

/-- Phase 1, one contribution: a new descriptor is given the reflective data. -/
def mergeContribution (s : MergeState) (c : Contribution) : Attempt Failure MergeState :=
  let merged := Registry.mergeContribution s.start c.descriptor
  ⟨{ start := merged.state
     reflectiveData := match s.start.identityMap.lookup c.descriptor.identity with
      | none => update s.reflectiveData s.start.registry.descriptors.length c.reflectiveData
      | some _ => s.reflectiveData }, merged.failure⟩

/-- Phase 1. -/
def mergeContributions (r : Registry) (cs : List Contribution) : Attempt Failure MergeState :=
  forEach mergeContribution cs { start := { registry := r } }

/-- The descriptor that the start makes for the contributions of an identity. -/
def descriptorOf (r : Registry) (identity : Identity) : Option DescriptorId :=
  (Registry.mergeAndLink { registry := r }).state.identityMap.lookup identity

/-- The descriptor of an identity carries reflective data. -/
def Carries (r : Registry) (cs : List Contribution) (identity : Identity) : Prop :=
  ∃ id, descriptorOf r identity = some id ∧
    ((mergeContributions r cs).state.reflectiveData id).isSome

/-- The first contribution of an identity. -/
def firstOf (cs : List Contribution) (identity : Identity) : Option Contribution :=
  cs.find? fun c => c.descriptor.identity == identity

section Merge

variable {s : MergeState} {c : Contribution} {cs done : List Contribution} {r : Registry}

/-- The reflective data changes nothing else. -/
theorem forEach_start (cs : List Contribution) (s : MergeState) :
    (forEach mergeContribution cs s).state.start =
        (forEach Registry.mergeContribution (cs.map Contribution.descriptor) s.start).state ∧
      (forEach mergeContribution cs s).failure =
        (forEach Registry.mergeContribution (cs.map Contribution.descriptor) s.start).failure := by
  induction cs generalizing s with
  | nil => exact ⟨rfl, rfl⟩
  | cons c cs ih =>
    rw [List.map_cons, forEach, forEach]
    cases hfailure : (Registry.mergeContribution s.start c.descriptor).failure with
    | none =>
      have hfirst : (mergeContribution s c).failure = none := hfailure
      rw [andThen_of_ok hfirst, andThen_of_ok hfailure]
      exact ih _
    | some e =>
      have hfirst : (mergeContribution s c).failure = some e := hfailure
      rw [andThen_of_fail hfirst, andThen_of_fail hfailure]
      exact ⟨rfl, rfl⟩

/-- After the contributions `done`, each identity has the data of its first contribution. -/
structure Retains (done : List Contribution) (s : MergeState) : Prop where
  within : ∀ identity id, s.start.identityMap.lookup identity = some id →
    id < s.start.registry.descriptors.length
  data : ∀ identity, (s.start.identityMap.lookup identity).map s.reflectiveData =
    (firstOf done identity).map Contribution.reflectiveData

theorem firstOf_concat (done : List Contribution) (c : Contribution) (identity : Identity) :
    firstOf (done ++ [c]) identity = (firstOf done identity).or
      (if c.descriptor.identity = identity then some c else none) := by
  rw [firstOf, List.find?_append, firstOf]
  congr 1
  by_cases h : c.descriptor.identity = identity <;> simp [h]

theorem Retains.merge (h : Retains done s) :
    Retains (done ++ [c]) (mergeContribution s c).state := by
  cases hlookup : s.start.identityMap.lookup c.descriptor.identity with
  | some id =>
    -- The contribution is dropped.
    have hstart : (Registry.mergeContribution s.start c.descriptor).state = s.start := by
      simp only [Registry.mergeContribution, hlookup]
      split
      · split <;> rfl
      · rfl
    have hstate : (mergeContribution s c).state = s := by
      simp only [mergeContribution, hstart, hlookup]
    rw [hstate]
    refine ⟨h.within, fun identity => ?_⟩
    rw [firstOf_concat, h.data identity]
    split_ifs with hsame
    · obtain ⟨first, hfirst⟩ : ∃ first, firstOf done identity = some first := by
        have hdata := h.data identity
        rw [← hsame, hlookup, hsame] at hdata
        cases hfirst : firstOf done identity with
        | none => simp [hfirst] at hdata
        | some first => exact ⟨first, rfl⟩
      rw [hfirst, Option.some_or]
    · rw [Option.or_none]
  | none =>
    have hstart : (Registry.mergeContribution s.start c.descriptor).state =
        Registry.mergeNew s.start c.descriptor := by
      simp [Registry.mergeContribution, hlookup]
    have hstate : (mergeContribution s c).state = ⟨Registry.mergeNew s.start c.descriptor,
        update s.reflectiveData s.start.registry.descriptors.length c.reflectiveData⟩ := by
      simp only [mergeContribution, hstart, hlookup]
    have hlength : (Registry.mergeNew s.start c.descriptor).registry.descriptors.length =
        s.start.registry.descriptors.length + 1 :=
      List.length_append
    have hmap (identity : Identity) :
        (Registry.mergeNew s.start c.descriptor).identityMap.lookup identity =
          (s.start.identityMap.lookup identity).or (if c.descriptor.identity = identity then
            some s.start.registry.descriptors.length else none) := by
      rw [show (Registry.mergeNew s.start c.descriptor).identityMap = s.start.identityMap ++
        [(c.descriptor.identity, s.start.registry.descriptors.length)] from rfl,
        List.lookup_append, List.lookup_singleton]
      simp only [beq_iff_eq, eq_comm (a := identity)]
    rw [hstate]
    refine ⟨fun identity id hid => ?_, fun identity => ?_⟩
    · rw [hmap] at hid
      rw [hlength]
      cases hold : s.start.identityMap.lookup identity with
      | some id' =>
        rw [hold, Option.some_or] at hid
        exact Option.some.inj hid ▸ (h.within identity id' hold).trans (Nat.lt_succ_self _)
      | none =>
        rw [hold, Option.none_or] at hid
        obtain ⟨-, hid⟩ := Option.ite_none_right_eq_some.mp hid
        exact Option.some.inj hid ▸ Nat.lt_succ_self _
    · have hdata := h.data identity
      rw [hmap, firstOf_concat]
      cases hold : s.start.identityMap.lookup identity with
      | some id =>
        rw [hold, Option.map_some] at hdata
        obtain ⟨first, hfirst, hsame⟩ := Option.map_eq_some_iff.mp hdata.symm
        rw [Option.some_or, Option.map_some, hfirst, Option.some_or, Option.map_some, hsame]
        exact congrArg some (Function.update_of_ne (h.within identity id hold).ne _ _)
      | none =>
        rw [hold, Option.map_none] at hdata
        rw [Option.none_or, Option.map_eq_none_iff.mp hdata.symm, Option.none_or]
        split_ifs <;> simp

theorem Retains.merged (h : Retains done s)
    (hok : (forEach mergeContribution cs s).failure = none) :
    Retains (done ++ cs) (forEach mergeContribution cs s).state := by
  induction cs generalizing done s with
  | nil => rwa [List.append_nil]
  | cons c cs ih =>
    obtain ⟨-, hrest, heq⟩ := forEach_cons_eq_none hok
    rw [heq, List.append_cons]
    exact ih h.merge hrest

/-- The descriptor of an identity carries the data of the first contribution. -/
theorem carries_iff (hpending : r.pending = cs.map Contribution.descriptor)
    (hok : (Registry.mergeAndLink { registry := r }).failure = none) (identity : Identity) :
    Carries r cs identity ↔
      ∃ first, firstOf cs identity = some first ∧ first.reflectiveData.isSome := by
  obtain ⟨hstart, hfailure⟩ := forEach_start cs { start := { registry := r } }
  have hcontributions := (andThen_failure_eq_none.mp (andThen_failure_eq_none.mp hok).1).1
  rw [hpending, ← hfailure] at hcontributions
  have hretains : Retains [] { start := { registry := r } } := ⟨nofun, fun _ => rfl⟩
  have hdata := (hretains.merged hcontributions).data identity
  rw [hstart, ← hpending, ← Registry.identityMap_mergeAndLink, List.nil_append] at hdata
  constructor
  · rintro ⟨id, hid, hsome⟩
    rw [← descriptorOf, hid, Option.map_some] at hdata
    obtain ⟨first, hfirst, hsame⟩ := Option.map_eq_some_iff.mp hdata.symm
    exact ⟨first, hfirst, hsame ▸ hsome⟩
  · rintro ⟨first, hfirst, hsome⟩
    rw [hfirst, Option.map_some] at hdata
    obtain ⟨id, hid, hsame⟩ := Option.map_eq_some_iff.mp hdata
    exact ⟨id, hid, hsame ▸ hsome⟩

end Merge

/-! ## Scanned types -/

section Scanned

variable (H : IdentityHashes) (membersOf : CppType → List Member)

/-- A context that has been given these discoveries, and whose first start succeeds. -/
structure Started (b : BeanContext) (ds : List Discovery) : Prop where
  reachable : b.Reachable
  first : b.core.beanContextDescId = none
  pending : b.core.pending = (submitted H membersOf ds).map Contribution.descriptor
  succeeds : b.start.failure = none

/-- The identity of a scanned type. -/
def identityOf : DiscoveredEntity → Option Identity
  | .annotatedType type _ ann _ => some (H.forType type.name ann.beanName ann.lifetime)
  | .factory .. | .factoryProduct .. => none

/-- One of the discoveries of the entity was made with `retainAllMetadata`. -/
def RetainedSomewhere (ds : List Discovery) (e : DiscoveredEntity) : Prop :=
  ∃ d ∈ ds, e ∈ d.entities ∧ d.retainAllMetadata = true

/-- Retained metadata does not depend on the order of the discoveries. -/
def RetentionFollows (b : BeanContext) (ds : List Discovery) : Prop :=
  ∀ d ∈ ds, ∀ e ∈ d.entities, ∀ identity, identityOf H e = some identity →
    (Carries b.core (submitted H membersOf ds) identity ↔ RetainedSomewhere ds e)

/-- The first contribution of an identity is that of an annotated type with members to record, and
    was made with `retainAllMetadata`. -/
def FirstRetains (ds : List Discovery) (identity : Identity) : Prop :=
  ∃ first, firstOf (submitted H membersOf ds) identity = some first ∧ first.reflectiveData.isSome

variable {H membersOf} {b : BeanContext} {ds : List Discovery}

/-- The descriptors of the scanned types carry records as their discoveries ask for it, exactly if
    the first contributions of their identities do. -/
theorem retention_iff (h : Started H membersOf b ds) : RetentionFollows H membersOf b ds ↔
    ∀ d ∈ ds, ∀ e ∈ d.entities, ∀ identity, identityOf H e = some identity →
      (FirstRetains H membersOf ds identity ↔ RetainedSomewhere ds e) := by
  have hok := (h.reachable.sound.start_eq h.first h.succeeds).1
  unfold RetentionFollows FirstRetains
  simp only [carries_iff h.pending hok]

end Scanned

/-! ## Two discoveries of one type -/

def service : CppType := ⟨"Service", 1⟩

/-- A singleton type with one method. -/
def serviceType : DiscoveredEntity := .annotatedType service [] {} {}

def serviceMembers (_ : CppType) : List Member := [{ identifier := "ping" }]

/-- The context after these discoveries. -/
def discovered (ds : List Discovery) : BeanContext :=
  BeanContext.execAll .initial (ds.map fun d =>
    .discover (InjectionPoints.makeAllDescriptors lengths d.entities))

/-- The option is given in the first discovery or in the second one. -/
def retainedFirst : List Discovery := [⟨[serviceType], true⟩, ⟨[serviceType], false⟩]
@[inherit_doc retainedFirst]
def retainedSecond : List Discovery := [⟨[serviceType], false⟩, ⟨[serviceType], true⟩]

/-- There is one scanned type. -/
theorem eq_serviceType {ds : List Discovery} (hds : ds = retainedFirst ∨ ds = retainedSecond)
    {d : Discovery} (hd : d ∈ ds) {e : DiscoveredEntity} (he : e ∈ d.entities) :
    e = serviceType := by
  rcases hds with rfl | rfl <;> rcases List.mem_pair.mp hd with rfl | rfl <;>
    exact List.mem_singleton.mp he

theorem started_retainedFirst : Started lengths serviceMembers (discovered retainedFirst)
    retainedFirst :=
  ⟨⟨_, 0, _, rfl⟩, rfl, rfl, by decide +kernel⟩

theorem started_retainedSecond : Started lengths serviceMembers (discovered retainedSecond)
    retainedSecond :=
  ⟨⟨_, 0, _, rfl⟩, rfl, rfl, by decide +kernel⟩

/-- If the first discovery has the option, the descriptor carries the records. -/
theorem retained_first :
    RetentionFollows lengths serviceMembers (discovered retainedFirst) retainedFirst := by
  refine (retention_iff started_retainedFirst).mpr fun d hd e he identity hid => ?_
  obtain rfl := eq_serviceType (.inl rfl) hd he
  obtain ⟨⟩ := hid
  have hfirst : FirstRetains lengths serviceMembers retainedFirst 7 := ⟨_, rfl, rfl⟩
  have hretained : RetainedSomewhere retainedFirst serviceType :=
    ⟨_, List.mem_cons_self, List.mem_cons_self, rfl⟩
  exact ⟨fun _ => hretained, fun _ => hfirst⟩

/-- If the second one has it, the descriptor carries none. -/
theorem retained_second :
    Started lengths serviceMembers (discovered retainedSecond) retainedSecond ∧
      ¬RetentionFollows lengths serviceMembers (discovered retainedSecond) retainedSecond := by
  refine ⟨started_retainedSecond, fun h => ?_⟩
  have hfollows := h ⟨[serviceType], true⟩ (.tail _ List.mem_cons_self) serviceType
    List.mem_cons_self 7 rfl
  have hcarries := hfollows.mpr ⟨_, .tail _ List.mem_cons_self, List.mem_cons_self, rfl⟩
  obtain ⟨first, hfirst, hsome⟩ := (carries_iff rfl (by decide +kernel) 7).mp hcarries
  obtain ⟨⟩ := hfirst
  exact absurd hsome Bool.false_ne_true

end Ctorium.Retention
