import Ctorium.Handles
import Ctorium.Lib.Machine
import Ctorium.Registry.Numbering

/-!
# Scope cycles and session handles

A handle to a session bean is a proxy: it carries the name of a scope and a descriptor,
and looks the instance up on every access. Starting a scope begins a new cycle. It
stores the instances that are pending; session beans that were discovered are
materialized when they are first accessed, and stopping the scope destroys the
instances one by one. Listeners, hooks, constructors and destructors run in between and
may use other scopes and handles, so each of these calls is a sequence of steps here,
and the steps of different calls interleave.

A scope is identified with the identifier of its name: a root never makes two scopes
of one name. An address stands for one instance, and is not used for a second one.
-/

namespace Ctorium.Sessions

/-! ## State -/

/-- A stop under way: the descriptors whose instances are still to be destroyed, the next one
    first, and whether their memory is kept for a restart. -/
structure Sweep where
  order : List DescriptorId
  deferDeallocation : Bool
  deriving DecidableEq

/-- What is under way in a scope. -/
structure Activity where
  /-- A start under way: the pending bindings that it has not stored yet. -/
  starting : Option (List PendingRuntimeSession) := none
  sweep : Option Sweep := none
  /-- The primaries whose constructors are running, which are the entries of the scope in
      `materializing_`. -/
  materializing : List DescriptorId := []
  /-- The materializations that have stored their instance, and return it when the listeners
      and hooks have run. -/
  returning : List (DescriptorId × Addr) := []
  /-- The instances stored in the current cycle. -/
  entered : DescriptorId → Option Addr := fun _ => none

/-- A handle that user code keeps, and the scope and the descriptor it is for. -/
structure Handle where
  scopeNameId : NameId
  descId : DescriptorId
  bean : Handles.Bean
  deriving DecidableEq

/-- The state of a root with its scopes, and of the handles that user code keeps. -/
structure State where
  context : BeanContext
  /-- The names in the scope table. -/
  registered : List NameId := []
  activity : ScopeId → Activity := fun _ => {}
  handles : List Handle := []
  /-- The scope and the descriptor that an instance was bound or constructed for. -/
  owner : Addr → Option (ScopeId × DescriptorId) := fun _ => none
  /-- The instances whose destructor has completed. -/
  destroyed : List Addr := []

namespace State

variable (s : State)

def scope (n : ScopeId) : ScopedContext := s.context.scopes n

def slotOf (d : DescriptorId) : Option SessionSlot := s.context.core.sessionSlotOf d

def primaryOf (d : DescriptorId) : DescriptorId := Wiring.primaryOf s.context d

/-- The descriptor is of a bound instance. -/
def bound (d : DescriptorId) : Bool :=
  s.context.core.descriptors[d]?.any fun desc => desc.origin == .runtimeBinding

/-- The instance that the store of the scope has for a descriptor. -/
def find (n : ScopeId) (d : DescriptorId) : Option Addr :=
  (s.scope n).sessionStore.find (s.slotOf d)

def setContext (b : BeanContext) : State := { s with context := b }

def setScope (n : ScopeId) (sc : ScopedContext) : State :=
  { s with context := s.context.setScope n sc }

def setActivity (n : ScopeId) (act : Activity) : State :=
  { s with activity := Function.update s.activity n act }

def own (n : ScopeId) (d : DescriptorId) (m : Addr) : State :=
  { s with owner := Function.update s.owner m (some (n, d)) }

def destroy (m : Option Addr) : State := { s with destroyed := s.destroyed ++ m.toList }

def keep (h : Handle) : State := { s with handles := s.handles ++ [h] }

end State

/-- An instance enters the cycle. -/
def Activity.enter (act : Activity) (d : DescriptorId) (m : Addr) : Activity :=
  { act with entered := Function.update act.entered d (some m) }

/-! ## Access -/

/-- What an access through a handle does: it gives null or an object, raises an exception, or
    materializes a bean first. -/
inductive Access
  | null
  | object (address : Addr)
  | raises (failure : Failure)
  | materializes (descId : DescriptorId)
  deriving DecidableEq

/-- The subobject that a descriptor exposes, in the object at `m`. -/
def exposed (adjustToExposed : DescriptorId → Option (Addr → Addr)) (d : DescriptorId) (m : Addr) :
    Addr :=
  match adjustToExposed d with
  | some f => f m
  | none => m

/-- `Registry::materializeSessionInstance`, up to the claim, for a primary that is not stored in
    a running scope. -/
def materializeSession (s : State) (n : ScopeId) (p : DescriptorId) : Access :=
  if s.bound p then .raises Wiring.sessionNotBound
  else if p ∈ (s.activity n).materializing then .raises Wiring.sessionCycle
  else .materializes p

/-- `Bean<T>::proxyResolve_`. -/
def proxyResolve (adjustToExposed : DescriptorId → Option (Addr → Addr)) (s : State) (n : NameId)
    (d : DescriptorId) : Access :=
  if n ∉ s.registered ∨ (s.scope n).scopeState = .stopped then .null
  else match s.find n (s.primaryOf d) with
    | some m => .object (exposed adjustToExposed d m)
    | none =>
      if (s.scope n).scopeState = .stopping then .null
      else materializeSession s n (s.primaryOf d)

/-- `Bean<T>::operator->`. -/
def access (adjustToExposed : DescriptorId → Option (Addr → Addr)) (s : State) (h : Handle) :
    Access :=
  match h.bean with
  | .direct object _ => .object object
  | .proxy n d => proxyResolve adjustToExposed s n d

/-! ## Obtaining handles -/

/-- The handle of a session bean. -/
def proxy (n : NameId) (d : DescriptorId) : Handle := ⟨n, d, .proxy n d⟩

/-- The descriptor of the target of a cast: that of the same bean which exposes the type. -/
def castTarget (r : Registry) (d : DescriptorId) (uid : TypeId) : Option DescriptorId :=
  r.descriptors[d]?.bind fun _ => (Handles.DescriptorTypes.of r).exposingDescriptor d uid

/-- `Registry::resolve` from a scope has selected the session bean and has its instance. -/
def Resolves (s : State) (n : ScopeId) (type : CppType) (nameId : NameId) (d : DescriptorId) :
    Prop :=
  Wiring.resolveTarget s.context (some n) type nameId = .ok d ∧
    Wiring.lifetimeOf s.context d = some .session ∧ s.find n (s.primaryOf d) ≠ none

instance (s : State) (n : ScopeId) (type : CppType) (nameId : NameId) (d : DescriptorId) :
    Decidable (Resolves s n type nameId d) := by
  unfold Resolves
  infer_instance

/-- A `scoped` parameter is given the session bean. -/
def Injects (s : State) (type : CppType) (nameId : NameId) (d : DescriptorId) : Prop :=
  Wiring.deferredTarget s.context type nameId = .ok d ∧
    Wiring.lifetimeOf s.context d = some .session

instance (s : State) (type : CppType) (nameId : NameId) (d : DescriptorId) :
    Decidable (Injects s type nameId d) := by
  unfold Injects
  infer_instance

/-! ## Steps -/

/-- The calls on the root. -/
def rootCall : BeanContext.Call → Bool
  | .discover .. | .bindSingleton .. | .defaultNamed .. | .clearDefaultNamed .. | .start => true
  | _ => false

/-- The steps of the calls on a root and its scopes, and of the callbacks that they dispatch. -/
inductive Action
  | root (call : BeanContext.Call)
  | resolveScope (key : String)
  | bindSession (n : ScopeId) (type : CppType) (name : String) (priority : ℤ) (object : Addr)
  /-- `ScopedContext::start` begins, stores the next pending instance, returns, or passes on an
      exception of a listener. -/
  | startScope (n : ScopeId)
  | storeNext (n : ScopeId)
  | startReturns (n : ScopeId)
  | startThrows (n : ScopeId)
  /-- `Registry::stopScope` begins, for a stop or a restart, has destroyed the next instance, or
      returns. -/
  | stopScope (n : ScopeId) (deferDeallocation : Bool)
  | destroyNext (n : ScopeId)
  | stopReturns (n : ScopeId)
  /-- A materialization begins, its constructor returns the object at `m` or throws, and it
      returns the object or passes on an exception of a listener or hook. -/
  | materialize (n : ScopeId) (p : DescriptorId)
  | constructed (n : ScopeId) (p : DescriptorId) (m : Addr)
  | constructorThrows (n : ScopeId) (p : DescriptorId)
  | returns (n : ScopeId) (p : DescriptorId) (m : Addr)
  /-- User code obtains a handle by a resolve, a scoped injection or a cast, or from the event of
      a bean that is materialized or destroyed. -/
  | resolve (n : ScopeId) (type : CppType) (nameId : NameId) (d : DescriptorId)
  | inject (scopeName : String) (type : CppType) (nameId : NameId) (d : DescriptorId)
  | cast (h : Handle) (uid : TypeId)
  | observe (n : ScopeId) (p : DescriptorId)
  /-- A listener keeps the handle of the creation events of a bound instance. -/
  | observeBound (n : ScopeId) (d : DescriptorId)

/-- The descriptor that `bindSession` uses, and the registry that has it. -/
def boundSession (b : BeanContext) (type : CppType) (name : String) (priority : ℤ) :
    DescriptorId × Registry :=
  (b.core.internSession type name).sessionDescriptor (b.core.sessionType type).1
    (b.core.nameInterning.intern name).1 priority

/-- A binding that is accepted: the instance belongs to the scope, and enters the cycle at once if
    the scope is running. -/
def State.bind (s : State) (n : ScopeId) (d : DescriptorId) (object : Addr) : State :=
  let s := s.own n d object
  if (s.scope n).scopeState = .running then s.setActivity n ((s.activity n).enter d object) else s

/-- A start begins. -/
def Activity.start (act : Activity) (pending : List PendingRuntimeSession) : Activity :=
  { act with starting := some pending, entered := fun _ => none }

def Activity.setStarting (act : Activity) (starting : Option (List PendingRuntimeSession)) :
    Activity := { act with starting := starting }

def Activity.setSweep (act : Activity) (sweep : Option Sweep) : Activity :=
  { act with sweep := sweep }

def Activity.claim (act : Activity) (p : DescriptorId) : Activity :=
  { act with materializing := p :: act.materializing }

/-- The claim ends when the constructor has returned or thrown. -/
def Activity.release (act : Activity) (p : DescriptorId) : Activity :=
  { act with materializing := act.materializing.erase p }

def Activity.setReturning (act : Activity) (returning : List (DescriptorId × Addr)) : Activity :=
  { act with returning := returning }

/-- No constructor, hook or listener of a materialization runs in the scope. -/
def Activity.quiet (act : Activity) : Bool := act.materializing.isEmpty && act.returning.isEmpty

/-- Listeners and hooks of the bean run, after its construction or before its destruction. -/
def Activity.announces (act : Activity) (p : DescriptorId) : Bool :=
  p ∈ act.returning.map Prod.fst || act.sweep.any fun sweep => sweep.order.head? == some p

/-- The steps of starting a scope. A start iterates over the pending bindings of its scope, so a
    further start of the same scope that a listener calls then has no meaning. -/
def startStep (s : State) (n : ScopeId) : State :=
  (s.setScope n ((s.scope n).beginStart s.context.core.sessionSlotCount)).setActivity n
    ((s.activity n).start (s.scope n).pendingRuntimeSessions)

@[inherit_doc startStep]
def storeStep (s : State) (n : ScopeId) (psb : PendingRuntimeSession)
    (rest : List PendingRuntimeSession) : State :=
  (s.setScope n ((s.scope n).storePending (s.slotOf psb.descId) psb)).setActivity n
    (((s.activity n).setStarting (some rest)).enter psb.descId psb.boundInstance)

@[inherit_doc startStep]
def startReturnsStep (s : State) (n : ScopeId) : State :=
  (s.setScope n (s.scope n).finishStart).setActivity n ((s.activity n).setStarting none)

/-- The steps of stopping a scope. -/
def stopStep (s : State) (n : ScopeId) (deferDeallocation : Bool) : State :=
  (s.setScope n (s.scope n).beginStop).setActivity n ((s.activity n).setSweep
    (some ⟨(s.scope n).sessionStore.insertionOrder.reverse, deferDeallocation⟩))

@[inherit_doc stopStep]
def destroyStep (s : State) (n : ScopeId) (d : DescriptorId) (sweep : Sweep) : State :=
  ((s.setScope n ((s.scope n).destroyInstance (s.slotOf d) d sweep.deferDeallocation)).setActivity n
    ((s.activity n).setSweep (some sweep))).destroy (s.find n d)

@[inherit_doc stopStep]
def stopReturnsStep (s : State) (n : ScopeId) (deferDeallocation : Bool) : State :=
  (s.setScope n ((s.scope n).finishStop deferDeallocation)).setActivity n
    ((s.activity n).setSweep none)

/-- The constructor has returned: the instance is stored, and the claim ends. -/
def constructedStep (s : State) (n : ScopeId) (p : DescriptorId) (m : Addr) : State :=
  ((s.setScope n ((s.scope n).storePending (s.slotOf p) ⟨p, m⟩)).setActivity n
    ((((s.activity n).release p).setReturning ((p, m) :: (s.activity n).returning)).enter p m)).own
      n p m

/-- One step. A step that is not enabled has no successor; calls that a scope refuses because of
    its state change nothing, and are no steps. -/
def step (s : State) : Action → Option State
  | .root call => if rootCall call then some (s.setContext (s.context.exec call).state) else none
  | .resolveScope key =>
    let names := s.context.core.nameInterning.intern key
    some { s with
      context := s.context.withCore (s.context.core.withNames names.2)
      registered := if names.1 ∈ s.registered then s.registered else names.1 :: s.registered }
  | .bindSession n type name priority object =>
    if s.owner object = none then
      let attempt := s.context.bindSession n type name priority object
      let s' := s.setContext attempt.state
      match attempt.failure with
      | none => some (s'.bind n (boundSession s.context type name priority).1 object)
      | some _ => some s'
    else none
  | .startScope n =>
    if (s.scope n).scopeState = .stopped ∧ (s.activity n).starting = none then some (startStep s n)
    else none
  | .storeNext n =>
    match (s.activity n).starting with
    | some (psb :: rest) => some (storeStep s n psb rest)
    | _ => none
  | .startReturns n =>
    if (s.activity n).starting = some [] then some (startReturnsStep s n) else none
  | .startThrows n =>
    if (s.activity n).starting.isSome then
      some (s.setActivity n ((s.activity n).setStarting none)) else none
  | .stopScope n deferDeallocation =>
    if (s.scope n).scopeState = .running ∧ (s.activity n).quiet then
      some (stopStep s n deferDeallocation) else none
  | .destroyNext n =>
    match (s.activity n).sweep with
    | some ⟨d :: rest, deferDeallocation⟩ => some (destroyStep s n d ⟨rest, deferDeallocation⟩)
    | _ => none
  | .stopReturns n =>
    match (s.activity n).sweep with
    | some ⟨[], deferDeallocation⟩ => some (stopReturnsStep s n deferDeallocation)
    | _ => none
  | .materialize n p =>
    if (s.scope n).scopeState = .running ∧ Wiring.lifetimeOf s.context p = some .session ∧
        s.find n p = none ∧ materializeSession s n p = .materializes p then
      some (s.setActivity n ((s.activity n).claim p))
    else none
  | .constructed n p m =>
    if p ∈ (s.activity n).materializing ∧ s.owner m = none then some (constructedStep s n p m)
    else none
  | .constructorThrows n p =>
    if p ∈ (s.activity n).materializing then
      some (s.setActivity n ((s.activity n).release p)) else none
  | .returns n p m =>
    if (p, m) ∈ (s.activity n).returning then
      some (s.setActivity n ((s.activity n).setReturning ((s.activity n).returning.erase (p, m))))
    else none
  | .resolve n type nameId d =>
    if Resolves s n type nameId d then some (s.keep (proxy n d)) else none
  | .inject scopeName type nameId d =>
    if Injects s type nameId d then
      let names := s.context.core.nameInterning.intern scopeName
      some ((s.setContext (s.context.withCore (s.context.core.withNames names.2))).keep
        (proxy names.1 d))
    else none
  | .cast h uid =>
    if h ∈ s.handles then
      match castTarget s.context.core h.descId uid, h.bean with
      | some d, .proxy n _ => some (s.keep (proxy n d))
      | _, _ => none
    else none
  | .observe n p =>
    if (s.activity n).announces p ∧ s.find n p ≠ none then some (s.keep (proxy n p)) else none
  | .observeBound n d =>
    match (s.activity n).entered d with
    | some m => if s.bound d then some (s.keep ⟨n, d, .direct m d⟩) else none
    | none => none

end Ctorium.Sessions
