import Ctorium.Registry

/-!
# Contexts: binding, default names and selection

A root context is its registry together with its scopes. This module models the calls
that change what a resolution selects (binding instances on the root and on scopes,
setting and clearing default names), the selection itself, and what scopes do with
bound session instances.

The calls are those parts of the source's functions that hold the write lock. An
instance that is passed to a bind call is taken over by the context if the call does
not fail, and is destroyed by the caller's `std::unique_ptr` otherwise. The callbacks
that a call dispatches after it has released the lock are further calls.
-/

namespace Ctorium

/-! ## Session stores and scopes -/

/-- Memory of a destroyed session instance, released when the next instance of the same
    descriptor is stored. -/
structure RetiredSessionBlock where
  descId : DescriptorId
  memory : Addr
  deriving DecidableEq, Repr

/-- The session instances of a scope. -/
structure SessionStore where
  instances : SessionSlot → Option Addr := fun _ => none
  instancesSize : ℕ := 0
  insertionOrder : List DescriptorId := []
  retiredBlocks : List RetiredSessionBlock := []

namespace SessionStore

/-- A descriptor without a slot has the largest slot number, which is out of range. -/
def find (ss : SessionStore) : Option SessionSlot → Option Addr
  | some slot => if slot < ss.instancesSize then ss.instances slot else none
  | none => none

/-- A fresh array without instances; the insertion order stays. -/
def resize (ss : SessionStore) (sessionSlotCount : ℕ) : SessionStore :=
  { ss with instances := fun _ => none, instancesSize := sessionSlotCount }

/-- Stores an instance and releases the retired memory of the same descriptor. A store
    without a slot writes past the array, and the instance is lost. -/
def store (ss : SessionStore) (slot : Option SessionSlot) (descId : DescriptorId) (mem : Addr) :
    SessionStore :=
  { ss with
    instances := match slot with
      | some slot => Function.update ss.instances slot (some mem)
      | none => ss.instances
    insertionOrder := ss.insertionOrder ++ [descId]
    retiredBlocks := ss.retiredBlocks.filter fun block => block.descId != descId }

def growAndStore (ss : SessionStore) (slot : Option SessionSlot) (descId : DescriptorId)
    (mem : Addr) : SessionStore :=
  { ss with
    instancesSize := max ss.instancesSize ((slot.map Nat.succ).getD 0) }.store slot descId mem

def nullSlot (ss : SessionStore) : Option SessionSlot → SessionStore
  | some slot => { ss with instances := Function.update ss.instances slot none }
  | none => ss

def retireDeallocation (ss : SessionStore) (descId : DescriptorId) (memory : Addr) : SessionStore :=
  { ss with retiredBlocks := ss.retiredBlocks ++ [⟨descId, memory⟩] }

def releaseAll (ss : SessionStore) (releaseRetiredBlocks : Bool) : SessionStore :=
  { retiredBlocks := if releaseRetiredBlocks then [] else ss.retiredBlocks }

end SessionStore

/-- An instance bound with `bindSession` for the next start of a scope. -/
structure PendingRuntimeSession where
  descId : DescriptorId
  boundInstance : Addr
  deriving DecidableEq, Repr

/-- The state of a scope. -/
structure ScopedContext where
  scopedDefaults : DefaultsTable := {}
  hasAnyScopedDefault : Bool := false
  pendingRuntimeSessions : List PendingRuntimeSession := []
  sessionStore : SessionStore := {}
  scopeState : ScopeState := .stopped

namespace ScopedContext

/-! ### The steps of starting and stopping a scope -/

/-- A start begins with a fresh array of the given number of slots. -/
def beginStart (sc : ScopedContext) (sessionSlotCount : ℕ) : ScopedContext :=
  { sc with sessionStore := sc.sessionStore.resize sessionSlotCount }

/-- A start stores the pending instances one by one. -/
def storePending (sc : ScopedContext) (slot : Option SessionSlot) (psb : PendingRuntimeSession) :
    ScopedContext :=
  { sc with sessionStore := sc.sessionStore.store slot psb.descId psb.boundInstance }

def finishStart (sc : ScopedContext) : ScopedContext :=
  { sc with pendingRuntimeSessions := [], scopeState := .running }

def beginStop (sc : ScopedContext) : ScopedContext := { sc with scopeState := .stopping }

/-- A stop destroys the stored instances one by one; on a restart, their memory is retired
    instead of released. -/
def destroyInstance (sc : ScopedContext) (slot : Option SessionSlot) (descId : DescriptorId)
    (deferDeallocation : Bool) : ScopedContext :=
  match sc.sessionStore.find slot with
  | none => sc
  | some mem =>
    if deferDeallocation then
      { sc with sessionStore := (sc.sessionStore.retireDeallocation descId mem).nullSlot slot }
    else { sc with sessionStore := sc.sessionStore.nullSlot slot }

def finishStop (sc : ScopedContext) (deferDeallocation : Bool) : ScopedContext :=
  { sc with
    sessionStore := sc.sessionStore.releaseAll !deferDeallocation
    scopeState := .stopped }

end ScopedContext

/-- A root context: its address, its registry and its scopes. -/
structure BeanContext where
  self : Addr := 0
  core : Registry
  scopes : ScopeId → ScopedContext := fun _ => {}

/-- A context at the given address on which nothing has been called. -/
abbrev BeanContext.fresh (stdSort : StdSort) (self : Addr) : BeanContext :=
  { self := self, core := { stdSort := stdSort } }

/-- A fresh context of a program that sorts by insertion. -/
abbrev BeanContext.initial : BeanContext := .fresh .insertion 0

/-! ## Binding singletons -/

namespace Registry

/-- The identifier of a type that is bound on a started registry: an unknown type is
    interned in the overflow table. -/
def adoptType (r : Registry) (type : CppType) : TypeId × TypeInterning :=
  match r.typeInterning.lookupByTypeIndex type.index with
  | some typeId => (typeId, r.typeInterning)
  | none => r.typeInterning.internByName type

/-- The failure of a second binding of a key on a started registry. -/
def singletonKeyTaken (r : Registry) (type : CppType) (nameId : NameId) : Failure :=
  let name := r.nameInterning.nameOf nameId
  .configurationError <|
    if name = "" then
      "Registry::bindSingleton: type '" ++ type.name ++
        "' unnamed binding already exists for the same priority."
    else
      "Registry::bindSingleton: type '" ++ type.name ++ "' named binding '" ++ name ++
        "' already exists for the same priority."

/-- The instance of the next descriptor. -/
def growSingletons (r : Registry) (object : Addr) : Registry :=
  { r with singletons := r.singletons.growAndStore r.descriptors.length object }

/-- Binding on a started registry: the type is adopted, and the instance is stored before
    its descriptor becomes a candidate. -/
def bindSingletonStarted (r : Registry) (type : CppType) (nameId : NameId) (priority : ℤ)
    (object : Addr) : Attempt Failure Registry :=
  let typeId := (r.adoptType type).1
  let r := r.withTypes (r.adoptType type).2
  if r.candidateKeyExists typeId nameId priority then .fail r (r.singletonKeyTaken type nameId)
  else .ok <| (r.growSingletons object).publishCandidate
    (r.boundDescriptor typeId nameId priority .singleton)

/-- Binding before the start: the instance waits for phase 1.5 of the start. -/
def bindSingletonPending (r : Registry) (type : CppType) (nameId : NameId) (priority : ℤ)
    (object : Addr) : Attempt Failure Registry :=
  if r.pendingRuntimeSingletons.any fun pb =>
      pb.type.name == type.name && pb.nameId == nameId && pb.priority == priority then
    .fail r (.configurationError ("Registry::bindSingleton: type '" ++ type.name ++
      "' binding already exists for the same name and priority."))
  else .ok { r with
    pendingRuntimeSingletons := r.pendingRuntimeSingletons ++ [⟨object, type, nameId, priority⟩] }

/-- `Registry::bindSingleton`. The type of the context bean, which alone has its
    qualified name, cannot be bound. -/
def bindSingleton (r : Registry) (type : CppType) (nameId : NameId) (priority : ℤ)
    (object : Addr) : Attempt Failure Registry :=
  if type.name = beanContextType.name then
    .fail r (.configurationError ("Registry::bindSingleton: ctr::BeanContext is registered " ++
      "implicitly at start(); explicit bindSingleton<ctr::BeanContext>() is forbidden."))
  else if r.started then r.bindSingletonStarted type nameId priority object
  else r.bindSingletonPending type nameId priority object

/-! ## Session descriptors -/

/-- The identifier of the type of a bound session instance. -/
def sessionType (r : Registry) (type : CppType) : TypeId × TypeInterning :=
  if r.started then r.adoptType type else r.typeInterning.internByName type

/-- The interning of the name and of the type of a session binding. -/
def internSession (r : Registry) (type : CppType) (name : String) : Registry :=
  (r.withNames (r.nameInterning.intern name).2).withTypes (r.sessionType type).2

/-- The descriptor of an earlier session binding of the key, which a started registry
    uses again. -/
def reusableSession (r : Registry) (typeId : TypeId) (nameId : NameId) (priority : ℤ) :
    Option DescriptorId :=
  if r.started then
    ((r.typeIndex.candidatesFor typeId nameId).getD []).find? fun id =>
      r.descriptors[id]?.any fun d =>
        d.origin == .runtimeBinding && d.lifetime == .session && d.priority == priority
  else none

def nextSessionSlot (r : Registry) : Registry :=
  { r with sessionSlotCount := r.sessionSlotCount + 1 }

/-- A new session descriptor. Only a started registry gives it a slot and sorts the
    candidates again. -/
def appendSession (r : Registry) (typeId : TypeId) (nameId : NameId) (priority : ℤ) : Registry :=
  let d := r.boundDescriptor typeId nameId priority .session
  if r.started then
    r.nextSessionSlot.publishCandidate { d with sessionSlot := some r.sessionSlotCount }
  else r.appendCandidate d

/-- The descriptor for a session binding, and the registry that has it. -/
def sessionDescriptor (r : Registry) (typeId : TypeId) (nameId : NameId) (priority : ℤ) :
    DescriptorId × Registry :=
  match r.reusableSession typeId nameId priority with
  | some id => (id, r)
  | none => (r.descriptors.length, r.appendSession typeId nameId priority)

def sessionSlotOf (r : Registry) (descId : DescriptorId) : Option SessionSlot :=
  r.descriptors[descId]?.bind Descriptor.sessionSlot

def setDefault (r : Registry) (typeId : TypeId) (nameId : NameId) : Registry :=
  { r with
    defaults := r.defaults.setDefault typeId nameId
    hasAnyDefault := r.hasAnyDefault || nameId != kUnnamed }

end Registry

namespace BeanContext

def withCore (b : BeanContext) (core : Registry) : BeanContext := { b with core := core }

def setScope (b : BeanContext) (scope : ScopeId) (sc : ScopedContext) : BeanContext :=
  { b with scopes := Function.update b.scopes scope sc }

/-- `BeanContext::bindSingleton`: the name is interned first. -/
def bindSingleton (b : BeanContext) (type : CppType) (name : String) (priority : ℤ)
    (object : Addr) : Attempt Failure BeanContext :=
  let bound := (b.core.withNames (b.core.nameInterning.intern name).2).bindSingleton type
    (b.core.nameInterning.intern name).1 priority object
  ⟨b.withCore bound.state, bound.failure⟩

/-! ## Binding session instances -/

/-- The failure of a second session binding of a key. -/
def sessionKeyTaken : Failure :=
  .configurationError ("ScopedContext::bindSession: binding already exists for this " ++
    "session key in the current scope cycle.")

/-- A session instance is pending until its scope starts, and is stored at once if the
    scope is running. -/
def placeSession (b : BeanContext) (scope : ScopeId) (descId : DescriptorId) (object : Addr) :
    Attempt Failure BeanContext :=
  let sc := b.scopes scope
  if sc.pendingRuntimeSessions.any fun psb => psb.descId == descId then .fail b sessionKeyTaken
  else if sc.scopeState ≠ .running then .ok <| b.setScope scope
    { sc with pendingRuntimeSessions := sc.pendingRuntimeSessions ++ [⟨descId, object⟩] }
  else if (sc.sessionStore.find (b.core.sessionSlotOf descId)).isSome then .fail b sessionKeyTaken
  else .ok <| b.setScope scope
    { sc with sessionStore :=
        sc.sessionStore.growAndStore (b.core.sessionSlotOf descId) descId object }

/-- A pending binding of the scope has the same key. -/
def pendingKeyExists (b : BeanContext) (scope : ScopeId) (typeId : TypeId) (nameId : NameId)
    (priority : ℤ) : Bool :=
  (b.scopes scope).pendingRuntimeSessions.any fun psb => b.core.descriptors[psb.descId]?.any
    fun d => d.exposedType == typeId && d.name == nameId && d.priority == priority

/-- `ScopedContext::bindSession`. -/
def bindSession (b : BeanContext) (scope : ScopeId) (type : CppType) (name : String) (priority : ℤ)
    (object : Addr) : Attempt Failure BeanContext :=
  if type.name = Registry.beanContextType.name then
    .fail b (.configurationError ("ScopedContext::bindSession: ctr::BeanContext cannot be bound " ++
      "as a session bean."))
  else
    let nameId := (b.core.nameInterning.intern name).1
    let typeId := (b.core.sessionType type).1
    let b := b.withCore (b.core.internSession type name)
    if b.pendingKeyExists scope typeId nameId priority then .fail b sessionKeyTaken
    else
      let desc := b.core.sessionDescriptor typeId nameId priority
      (b.withCore desc.2).placeSession scope desc.1 object

/-! ## Default names -/

/-- `defaultNamed` before the start. -/
def defaultNamedNotStarted : Failure :=
  .contextStateError ("BeanContext::defaultNamed: context must be started; " ++
    "TypeId is not assigned before start().")

/-- `BeanContext::defaultNamed(name)`, on the root or on a scope. -/
def defaultNamed (b : BeanContext) (scope : Option ScopeId) (type : CppType) (name : String) :
    Attempt Failure BeanContext :=
  if !b.core.started then .fail b defaultNamedNotStarted
  else if name = "" then
    .fail b (.configurationError ("BeanContext::defaultNamed: empty string is not a valid named " ++
      "qualifier; use defaultNamed(nullptr) to clear the default."))
  else match (b.core.typeInterning.lookupByTypeIndex type.index).filter
      fun typeId => decide (typeId < b.core.defaults.size) with
    | none => .fail b (.configurationError
        ("BeanContext::defaultNamed: type T has no defaults slot in this context; " ++
          "defaults can only be set for types registered before start()."))
    | some typeId =>
      let nameId := (b.core.nameInterning.intern name).1
      let b := b.withCore (b.core.withNames (b.core.nameInterning.intern name).2)
      match scope with
      | none => .ok (b.withCore (b.core.setDefault typeId nameId))
      | some scope =>
        let sc := b.scopes scope
        let table := if sc.scopedDefaults.size = 0 then DefaultsTable.resize b.core.defaults.size
          else sc.scopedDefaults
        .ok <| b.setScope scope
          { sc with scopedDefaults := table.setDefault typeId nameId, hasAnyScopedDefault := true }

/-- `BeanContext::defaultNamed(nullptr)`, on the root or on a scope. -/
def clearDefaultNamed (b : BeanContext) (scope : Option ScopeId) (type : CppType) :
    Attempt Failure BeanContext :=
  if !b.core.started then .fail b defaultNamedNotStarted
  else match (b.core.typeInterning.lookupByTypeIndex type.index).filter
      fun typeId => decide (typeId < b.core.defaults.size) with
    | none => .ok b
    | some typeId =>
      match scope with
      | none => .ok (b.withCore (b.core.setDefault typeId kUnnamed))
      | some scope =>
        let sc := b.scopes scope
        if sc.scopedDefaults.size = 0 then .ok b
        else .ok <| b.setScope scope
          { sc with scopedDefaults := sc.scopedDefaults.setDefault typeId kUnnamed }

/-! ## Selection -/

/-- The name under which a resolution looks for candidates: a default is read only if some
    default was ever set. -/
def effectiveName (b : BeanContext) (scope : Option ScopeId) (typeId : TypeId) (nameId : NameId) :
    NameId :=
  if nameId = kUnnamed then
    let scopeDefault := match scope with
      | some scope =>
        if (b.scopes scope).hasAnyScopedDefault then
          (b.scopes scope).scopedDefaults.getDefault typeId
        else kUnnamed
      | none => kUnnamed
    if scopeDefault = kUnnamed ∧ b.core.hasAnyDefault then b.core.defaults.getDefault typeId
    else scopeDefault
  else nameId

/-- No candidate. -/
def noBean : Failure :=
  .resolutionError "Registry::resolve: no bean registered for the requested type and named key."

/-- Two candidates of highest priority. -/
def ambiguousResolution : Failure :=
  .resolutionError ("Registry::resolve: ambiguous resolution — two candidates share " ++
    "the highest priority for the requested type and named key.")

/-- The selection from a candidate vector whose head is not cached. -/
def selectFallback (priorityOf : DescriptorId → ℤ) : List DescriptorId → Except Failure DescriptorId
  | [] => .error noBean
  | [id] => .ok id
  | id :: id' :: _ =>
    if priorityOf id = priorityOf id' then .error ambiguousResolution else .ok id

/-- The selection from the entry of a key: the cached head, if there is one. -/
def selectEntry (priorityOf : DescriptorId → ℤ) : Option NameEntry → Except Failure DescriptorId
  | none => .error noBean
  | some entry =>
    match entry.head with
    | none => selectFallback priorityOf entry.candidates
    | some head => if entry.ambiguous then .error ambiguousResolution else .ok head

/-- The selection for a type and an effective name. -/
def selectKey (r : Registry) (typeId : TypeId) (nameId : NameId) : Except Failure DescriptorId :=
  match (if nameId = kUnnamed then r.typeIndex.singleUnnamed typeId else none) with
  | some id => .ok id
  | none => selectEntry r.priorityOf (r.typeIndex.entries typeId nameId)

/-- The descriptor that `Registry::resolve` selects for a type and a name, before it
    materializes the bean. -/
def select (b : BeanContext) (scope : Option ScopeId) (typeId : TypeId) (nameId : NameId) :
    Except Failure DescriptorId :=
  if !b.core.started then
    .error (.contextStateError ("Registry::resolve: context has not been started; " ++
      "call start() before resolving beans."))
  else selectKey b.core typeId (b.effectiveName scope typeId nameId)

/-! ## Starting -/

def discover (b : BeanContext) (cds : List ContributedDescriptor) : Attempt Failure BeanContext :=
  let submitted := b.core.submitContribution cds
  ⟨b.withCore submitted.state, submitted.failure⟩

/-- The part of `BeanContext::start` that no user code takes part in. -/
def start (b : BeanContext) : Attempt Failure BeanContext :=
  let started := b.core.start b.self
  ⟨b.withCore started.state, started.failure⟩

/-! ## Starting and stopping scopes -/

/-- `ScopedContext::start`, for a scope that is stopped. -/
def runScopeStart (b : BeanContext) (scope : ScopeId) : BeanContext :=
  let sc := b.scopes scope
  b.setScope scope (sc.pendingRuntimeSessions.foldl
    (fun sc psb => sc.storePending (b.core.sessionSlotOf psb.descId) psb)
    (sc.beginStart b.core.sessionSlotCount)).finishStart

/-- `ScopedContext::start`, without the callbacks that it dispatches. -/
def startScope (b : BeanContext) (scope : ScopeId) : Attempt Failure BeanContext :=
  if !b.core.started then
    .fail b (.contextStateError ("ScopedContext::start: the root registry must be started " ++
      "before a scope can start."))
  else match (b.scopes scope).scopeState with
    | .running => .ok b
    | .stopping => .fail b (.contextStateError
        "ScopedContext::start: cannot start a scope that is being stopped.")
    | .stopped => .ok (b.runScopeStart scope)

/-- `Registry::stopScope`, without the callbacks that it dispatches: the instances are
    destroyed in the reverse order of their insertion. -/
def runScopeStop (b : BeanContext) (scope : ScopeId) (deferDeallocation : Bool) : BeanContext :=
  let sc := b.scopes scope
  b.setScope scope ((sc.sessionStore.insertionOrder.reverse.foldl
    (fun sc id => sc.destroyInstance (b.core.sessionSlotOf id) id deferDeallocation)
    sc.beginStop).finishStop deferDeallocation)

/-- `ScopedContext::stop`. -/
def stopScope (b : BeanContext) (scope : ScopeId) : BeanContext :=
  if (b.scopes scope).scopeState = .running then b.runScopeStop scope false else b

/-- `ScopedContext::restart`. -/
def restartScope (b : BeanContext) (scope : ScopeId) : Attempt Failure BeanContext :=
  (if (b.scopes scope).scopeState = .running then b.runScopeStop scope true
    else b.stopScope scope).startScope scope

/-- The calls on a context and its scopes. -/
inductive Call
  | discover (cds : List ContributedDescriptor)
  | bindSingleton (type : CppType) (name : String) (priority : ℤ) (object : Addr)
  | bindSession (scope : ScopeId) (type : CppType) (name : String) (priority : ℤ) (object : Addr)
  | defaultNamed (scope : Option ScopeId) (type : CppType) (name : String)
  | clearDefaultNamed (scope : Option ScopeId) (type : CppType)
  | start
  | startScope (scope : ScopeId)
  | stopScope (scope : ScopeId)
  | restartScope (scope : ScopeId)

/-- The outcome of a call. -/
def exec (b : BeanContext) : Call → Attempt Failure BeanContext
  | .discover cds => b.discover cds
  | .bindSingleton type name priority object => b.bindSingleton type name priority object
  | .bindSession scope type name priority object => b.bindSession scope type name priority object
  | .defaultNamed scope type name => b.defaultNamed scope type name
  | .clearDefaultNamed scope type => b.clearDefaultNamed scope type
  | .start => b.start
  | .startScope scope => b.startScope scope
  | .stopScope scope => .ok (b.stopScope scope)
  | .restartScope scope => b.restartScope scope

/-- The context after a sequence of calls, whether they failed or not. -/
def execAll (b : BeanContext) (calls : List Call) : BeanContext :=
  calls.foldl (fun b call => (b.exec call).state) b

end BeanContext

end Ctorium
