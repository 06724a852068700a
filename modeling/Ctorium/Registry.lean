import Ctorium.Lib.Attempt
import Ctorium.TypeIndex

/-!
# The registry and its start

The registry of a root context merges the contributed descriptors and the instances
that were bound before the start, in the phases of `Registry::start`: it merges the
contributions (phase 1) and the pending runtime singletons (1.5), links the factory
methods (2) and the exposed aliases (2.5), sorts the candidates (3), validates the
graph (3.5 and 3.75), and then registers the context itself as a bean, assigns the
session slots and publishes the registry as started (4).

A phase that throws leaves the registry as far as the phases have brought it, so the
start is an `Attempt`: it has a state also when it fails.
-/

namespace Ctorium

/-- The part of a bean descriptor that merging, selection and ownership read. An
    externally owned bean is one of size 0, whose memory is never released. -/
structure Descriptor where
  exposedType : TypeId
  concreteType : TypeId
  name : NameId
  priority : ℤ
  lifetime : Lifetime
  origin : Origin
  lazy : Bool := true
  externallyOwned : Bool := false
  primaryDescriptor : Option DescriptorId := none
  factoryMethodDescriptor : Option DescriptorId := none
  sessionSlot : Option SessionSlot := none
  deriving DecidableEq, Repr

/-- The 64-bit hash that identifies a contribution. -/
abbrev Identity := ℕ

/-- An injected constructor parameter of a contribution. -/
structure ContributedParamDescriptor where
  injectedTypeName : Option String
  injectedTypeInfo : ℕ
  hasScopedAnnotation : Bool := false
  hasNamedAnnotation : Bool := false
  targetName : Option String := none
  deriving DecidableEq, Repr

/-- A descriptor as `discover<>()` contributes it: of an annotated type or of a product of a
    factory, never of a binding. -/
structure ContributedDescriptor where
  identity : Identity
  exposedType : CppType
  concreteType : CppType
  beanName : String := ""
  priority : ℤ := 0
  lifetime : Lifetime
  origin : Origin := .annotatedType
  lazy : Bool := true
  factoryMethodIdentity : Option Identity := none
  isExposedAlias : Bool := false
  aliasOfPrimaryIdentity : Option Identity := none
  params : List ContributedParamDescriptor := []
  discovered : origin ≠ .runtimeBinding := by
    first
    | exact Origin.annotatedType_ne_runtimeBinding
    | exact Origin.factoryProduct_ne_runtimeBinding
  deriving DecidableEq

/-- An instance bound with `bindSingleton` before the start. -/
structure PendingRuntimeSingleton where
  boundInstance : Addr
  type : CppType
  nameId : NameId
  priority : ℤ
  deriving DecidableEq, Repr

/-- An instance that the start has moved into the singleton store. -/
structure StartBound where
  descId : DescriptorId
  boundInstance : Addr
  exposedTypeId : TypeId
  deriving DecidableEq, Repr

/-! ## The singleton store -/

/-- The singleton instances: an array of pointers, and the order of their insertion. -/
structure SingletonStore where
  instances : DescriptorId → Option Addr := fun _ => none
  size : ℕ := 0
  insertionOrder : List DescriptorId := []

namespace SingletonStore

def find (ss : SingletonStore) (descId : DescriptorId) : Option Addr :=
  if descId < ss.size then ss.instances descId else none

def store (ss : SingletonStore) (descId : DescriptorId) (mem : Addr) : SingletonStore :=
  { ss with
    instances := Function.update ss.instances descId (some mem)
    insertionOrder := ss.insertionOrder ++ [descId] }

def growAndStore (ss : SingletonStore) (descId : DescriptorId) (mem : Addr) : SingletonStore :=
  { ss with size := max ss.size (descId + 1) }.store descId mem

/-- A fresh array without instances; the insertion order stays. -/
def resize (ss : SingletonStore) (descriptorCount : ℕ) : SingletonStore :=
  { ss with instances := fun _ => none, size := descriptorCount }

def releaseAll (_ : SingletonStore) : SingletonStore := {}

end SingletonStore

/-! ## The registry -/

/-- The state of a registry, and the `std::sort` that the program is built with: a parameter of
    the model, which no operation changes. -/
structure Registry where
  stdSort : StdSort
  descriptors : List Descriptor := []
  typeInterning : TypeInterning := {}
  nameInterning : NameInterning := {}
  typeIndex : TypeIndex := {}
  defaults : DefaultsTable := {}
  hasAnyDefault : Bool := false
  singletons : SingletonStore := {}
  sessionSlotCount : ℕ := 0
  pending : List ContributedDescriptor := []
  pendingRuntimeSingletons : List PendingRuntimeSingleton := []
  startLifecyclePending : List StartBound := []
  beanContextDescId : Option DescriptorId := none
  beanContextStartLifecyclePending : Bool := false
  started : Bool := false

namespace Registry

/-- The priority of a descriptor, as the candidates are sorted by it. -/
def priorityOf (r : Registry) (descId : DescriptorId) : ℤ :=
  (r.descriptors[descId]?.map Descriptor.priority).getD 0

def candidateKeyExists (r : Registry) (typeId : TypeId) (nameId : NameId) (priority : ℤ) : Bool :=
  r.descriptors.any fun d =>
    d.exposedType == typeId && d.name == nameId && d.priority == priority

def withTypes (r : Registry) (typeInterning : TypeInterning) : Registry :=
  { r with typeInterning := typeInterning }

def withNames (r : Registry) (nameInterning : NameInterning) : Registry :=
  { r with nameInterning := nameInterning }

/-- A descriptor is appended to the table and registered in the type index. -/
def appendCandidate (r : Registry) (d : Descriptor) : Registry :=
  { r with
    descriptors := r.descriptors ++ [d]
    typeIndex := r.typeIndex.insertCandidate d.exposedType d.name r.descriptors.length }

def modifyDescriptor (r : Registry) (descId : DescriptorId) (f : Descriptor → Descriptor) :
    Registry :=
  { r with descriptors := r.descriptors.modify descId f }

def sortAllCandidates (r : Registry) : Registry :=
  { r with typeIndex := r.typeIndex.sortAllCandidates r.stdSort r.priorityOf }

/-- A descriptor is appended after the start: the candidates are sorted again. -/
def publishCandidate (r : Registry) (d : Descriptor) : Registry :=
  let r := (r.appendCandidate d).sortAllCandidates
  { r with typeIndex := r.typeIndex.updateSingleUnnamed d.exposedType }

/-- Contributions can be submitted before the start only. -/
def submitContribution (r : Registry) (cds : List ContributedDescriptor) :
    Attempt Failure Registry :=
  if r.started then
    .fail r (.contextStateError ("discover<>() called after start() — contributions must be " ++
      "submitted before the context is started."))
  else .ok { r with pending := r.pending ++ cds }

/-! ## The phases of the start -/

/-- The registry during its start, with the local variables of `Registry::start`. -/
structure StartState where
  registry : Registry
  identityMap : List (Identity × DescriptorId) := []
  factoryLinks : List (DescriptorId × Identity) := []
  aliasLinks : List (DescriptorId × Identity) := []
  runtimeBound : List StartBound := []

/-- The descriptor of a contribution with a new identity. -/
def contributedDescriptor (r : Registry) (cd : ContributedDescriptor) : Descriptor where
  exposedType := (r.typeInterning.internByName cd.exposedType).1
  concreteType :=
    ((r.typeInterning.internByName cd.exposedType).2.internByName cd.concreteType).1
  name := (r.nameInterning.intern cd.beanName).1
  priority := cd.priority
  lifetime := cd.lifetime
  origin := cd.origin
  lazy := cd.lazy
  externallyOwned := cd.isExposedAlias
  primaryDescriptor := if cd.isExposedAlias then none else some r.descriptors.length

/-- The interning of the types and of the name of a contribution. -/
def internContribution (r : Registry) (cd : ContributedDescriptor) : Registry :=
  (r.withTypes
    ((r.typeInterning.internByName cd.exposedType).2.internByName cd.concreteType).2).withNames
      (r.nameInterning.intern cd.beanName).2

/-- A contribution with a new identity becomes a descriptor, and its links to a primary
    and to a factory method are noted. -/
def mergeNew (s : StartState) (cd : ContributedDescriptor) : StartState :=
  let id := s.registry.descriptors.length
  { s with
    registry := (s.registry.internContribution cd).appendCandidate
      (s.registry.contributedDescriptor cd)
    identityMap := s.identityMap ++ [(cd.identity, id)]
    aliasLinks := match cd.isExposedAlias, cd.aliasOfPrimaryIdentity with
      | true, some primary => s.aliasLinks ++ [(id, primary)]
      | _, _ => s.aliasLinks
    factoryLinks := match cd.factoryMethodIdentity with
      | some factory => s.factoryLinks ++ [(id, factory)]
      | none => s.factoryLinks }

/-- A contribution with the identity of an existing descriptor differs from it in the
    exposed type, the name or the lifetime. -/
def divergent (r : Registry) (d : Descriptor) (cd : ContributedDescriptor) : Bool :=
  r.typeInterning.nameOf d.exposedType != cd.exposedType.name ||
    r.nameInterning.nameOf d.name != cd.beanName || d.lifetime != cd.lifetime

/-- Phase 1, one contribution. -/
def mergeContribution (s : StartState) (cd : ContributedDescriptor) :
    Attempt Failure StartState :=
  match s.identityMap.lookup cd.identity with
  | none => .ok (mergeNew s cd)
  | some id =>
    match s.registry.descriptors[id]? with
    | some existing =>
      if s.registry.divergent existing cd then
        .fail s (.configurationError ("Registry::start(): Identity collision between '" ++
          cd.exposedType.name ++ "' and existing '" ++
          s.registry.typeInterning.nameOf existing.exposedType ++
          "' — divergent exposedTypeName, beanName, or lifetime for the same Identity value."))
      else .ok s
    | none => .ok s

/-- The descriptor of a bound instance. -/
def boundDescriptor (r : Registry) (typeId : TypeId) (nameId : NameId) (priority : ℤ)
    (lifetime : Lifetime) : Descriptor where
  exposedType := typeId
  concreteType := typeId
  name := nameId
  priority := priority
  lifetime := lifetime
  origin := .runtimeBinding
  primaryDescriptor := some r.descriptors.length

/-- Phase 1.5, one pending singleton. Its type is interned before its key is checked. -/
def mergePendingSingleton (s : StartState) (pb : PendingRuntimeSingleton) :
    Attempt Failure StartState :=
  let typeId := (s.registry.typeInterning.internByName pb.type).1
  let r := s.registry.withTypes (s.registry.typeInterning.internByName pb.type).2
  if r.candidateKeyExists typeId pb.nameId pb.priority then
    .fail { s with registry := r } (.configurationError
      ("Registry::start(): runtime singleton binding for type '" ++ pb.type.name ++
        "' collides with an existing candidate for the same name and priority."))
  else .ok { s with
    registry := r.appendCandidate (r.boundDescriptor typeId pb.nameId pb.priority .singleton)
    runtimeBound := s.runtimeBound ++ [⟨r.descriptors.length, pb.boundInstance, typeId⟩] }

/-- The end of phase 1.5: the pending singletons are dropped from the list. -/
def clearPendingSingletons (s : StartState) : StartState :=
  { s with registry := { s.registry with pendingRuntimeSingletons := [] } }

/-- The name of a type of a descriptor, for the error texts. -/
def typeNameOf (r : Registry) (descId : DescriptorId) (type : Descriptor → TypeId) : String :=
  (r.descriptors[descId]?.map fun d => r.typeInterning.nameOf (type d)).getD ""

/-- Phase 2, one link. -/
def linkFactory (s : StartState) (link : DescriptorId × Identity) : Attempt Failure StartState :=
  match s.identityMap.lookup link.2 with
  | none => .fail s (.configurationError
      ("Registry::start(): factory method identity not found for bean '" ++
        s.registry.typeNameOf link.1 Descriptor.concreteType ++ "'."))
  | some factory => .ok { s with
      registry := s.registry.modifyDescriptor link.1 fun d =>
        { d with factoryMethodDescriptor := some factory } }

/-- Phase 2.5, one link. -/
def linkAlias (s : StartState) (link : DescriptorId × Identity) : Attempt Failure StartState :=
  match s.identityMap.lookup link.2 with
  | none => .fail s (.configurationError
      ("Registry::start(): primary descriptor not found for exposed alias '" ++
        s.registry.typeNameOf link.1 Descriptor.exposedType ++ "'."))
  | some primary => .ok { s with
      registry := s.registry.modifyDescriptor link.1 fun d =>
        { d with primaryDescriptor := some primary } }

/-- The factory methods of the factory products among the candidates of a key. -/
def factoryIds (r : Registry) (typeId : TypeId) (nameId : NameId) : List DescriptorId :=
  ((r.typeIndex.candidatesFor typeId nameId).getD []).filterMap fun id =>
    r.descriptors[id]?.bind fun d =>
      if d.origin = .factoryProduct then d.factoryMethodDescriptor else none

/-- Phase 3.5, one key: two products of one factory method collide. -/
def duplicateProducers (r : Registry) (typeId : TypeId) (nameId : NameId) : Option Failure :=
  if (r.factoryIds typeId nameId).Nodup then none
  else some (.configurationError
    ("Registry::start(): two producer methods on the same factory return the same type and " ++
      "named key: type='" ++ r.typeInterning.nameOf typeId ++ "' name='" ++
      r.nameInterning.nameOf nameId ++ "'."))

/-- Phase 3.5: the first failing key, in the order of types and names. -/
def validateProducers (r : Registry) : Option Failure :=
  (List.range r.typeInterning.size).findSome? fun typeId =>
    (List.range r.nameInterning.size).findSome? fun nameId => r.duplicateProducers typeId nameId

/-- The name under which the candidates of a parameter are looked up, if it is interned. -/
def paramName (r : Registry) (p : ContributedParamDescriptor) : Option NameId :=
  if p.hasNamedAnnotation then r.nameInterning.lookup (p.targetName.getD "") else some kUnnamed

/-- The first candidate for the type and name of a parameter, if there is one. -/
def paramCandidate (r : Registry) (p : ContributedParamDescriptor) : Option Descriptor := do
  let typeId ← r.typeInterning.lookupByTypeIndex p.injectedTypeInfo
  let nameId ← r.paramName p
  let candidates ← r.typeIndex.candidatesFor typeId nameId
  let id ← candidates.head?
  r.descriptors[id]?

/-- Phase 3.75, one parameter: `scoped` on a target that is not a session bean, or a
    session bean injected into a bean of another lifetime without `scoped`. -/
def scopedViolation (r : Registry) (cd : ContributedDescriptor) (p : ContributedParamDescriptor) :
    Option Failure :=
  match r.paramCandidate p with
  | none => none
  | some d =>
    if p.hasScopedAnnotation && d.lifetime != .session then
      some (.configurationError ("start(): [[=ctr::scoped]] targets non-session bean '" ++
        p.injectedTypeName.getD "?" ++ "'."))
    else if !p.hasScopedAnnotation && d.lifetime == .session && cd.lifetime != .session then
      some (.configurationError ("start(): session bean '" ++ p.injectedTypeName.getD "?" ++
        "' injected into a non-session consumer without [[=ctr::scoped]]."))
    else none

/-- Phase 3.75. -/
def validateScoped (r : Registry) : Option Failure :=
  r.pending.findSome? fun cd => cd.params.findSome? fun p => r.scopedViolation cd p

/-- The type of the context bean. -/
def beanContextType : CppType := ⟨"ctr::BeanContext", 0⟩

/-- The descriptor of the context bean. -/
def contextDescriptor (typeId : TypeId) : Descriptor where
  exposedType := typeId
  concreteType := typeId
  name := kUnnamed
  priority := 0
  lifetime := .singleton
  origin := .runtimeBinding
  externallyOwned := true

/-- The context is appended as an unnamed singleton of priority 0 after the candidates
    have been sorted, and only the cache of the only unnamed candidate is refreshed. -/
def registerContextBean (r : Registry) (ctx : Addr) : Registry :=
  let typeId := (r.typeInterning.internByName beanContextType).1
  let id := r.descriptors.length
  let r := (r.withTypes (r.typeInterning.internByName beanContextType).2).appendCandidate
    (contextDescriptor typeId)
  { r with
    beanContextDescId := some id
    typeIndex := r.typeIndex.updateSingleUnnamed typeId
    singletons := (r.singletons.resize r.descriptors.length).store id ctx }

/-- Numbers the session descriptors from the given slot on. -/
def numberSessions : SessionSlot → List Descriptor → List Descriptor
  | _, [] => []
  | slot, d :: ds =>
    if d.lifetime = .session then
      { d with sessionSlot := some slot } :: numberSessions (slot + 1) ds
    else { d with sessionSlot := none } :: numberSessions slot ds

def assignSessionSlots (r : Registry) : Registry :=
  { r with
    sessionSlotCount := r.descriptors.countP fun d => d.lifetime = .session
    descriptors := numberSessions 0 r.descriptors }

/-- The bound instances enter the singleton store. -/
def storeRuntimeBound (r : Registry) (bound : List StartBound) : Registry :=
  { r with
    singletons := bound.foldl (fun ss rb => ss.store rb.descId rb.boundInstance) r.singletons
    startLifecyclePending := r.startLifecyclePending ++ bound }

/-- The end of phase 4. -/
def publish (r : Registry) : Registry :=
  { r with
    typeInterning := r.typeInterning.freeze
    defaults := DefaultsTable.resize r.typeInterning.size
    started := true
    beanContextStartLifecyclePending := true }

/-- Phase 4. -/
def finishStart (s : StartState) (ctx : Addr) : StartState :=
  { s with registry :=
      (((s.registry.registerContextBean ctx).assignSessionSlots).storeRuntimeBound
        s.runtimeBound).publish }

/-- Phases 1 and 1.5. -/
def mergeAll (s : StartState) : Attempt Failure StartState :=
  (Attempt.forEach mergeContribution s.registry.pending s).andThen fun s =>
  Attempt.forEach mergePendingSingleton s.registry.pendingRuntimeSingletons s

/-- Phases 2 and 2.5. -/
def linkAll (s : StartState) : Attempt Failure StartState :=
  (Attempt.forEach linkFactory s.factoryLinks (clearPendingSingletons s)).andThen fun s =>
  Attempt.forEach linkAlias s.aliasLinks s

/-- Phases 1 to 2.5. -/
def mergeAndLink (s : StartState) : Attempt Failure StartState :=
  (mergeAll s).andThen linkAll

/-- Phase 3. -/
def sortState (s : StartState) : StartState :=
  { s with registry := s.registry.sortAllCandidates }

/-- The phases of the first start. -/
def merge (s : StartState) (ctx : Addr) : Attempt Failure StartState :=
  (mergeAndLink s).andThen fun s =>
  (Attempt.check (sortState s) (sortState s).registry.validateProducers).andThen fun s =>
  (Attempt.check s s.registry.validateScoped).andThen fun s =>
  .ok (finishStart s ctx)

/-- The retry of a start whose merge has succeeded before: the prepared state is
    published again. -/
def restart (r : Registry) (ctx : Addr) (descId : DescriptorId) : Registry :=
  { r with
    singletons := (r.singletons.resize r.descriptors.length).store descId ctx
    started := true
    beanContextStartLifecyclePending := true }

/-- `Registry::start`. -/
def start (r : Registry) (ctx : Addr) : Attempt Failure Registry :=
  if r.started then .ok r
  else match r.beanContextDescId with
    | some descId => .ok (r.restart ctx descId)
    | none => ⟨(merge { registry := r } ctx).state.registry, (merge { registry := r } ctx).failure⟩

end Registry

end Ctorium
