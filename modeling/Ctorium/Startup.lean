import Ctorium.Lib.Machine
import Ctorium.Registry.Reachable

/-!
# The public start of a context

`BeanContext::start` does more than `Registry::start`: it flushes the deferred listeners,
announces the context and then the singletons that were bound before the start, and
materializes the eager singletons. All of this runs again when it is called on a started
context, also from the user code that an earlier call runs. If some of it throws,
`rollbackFailedStart` undoes the start.

The machine of this module has the calls of one thread. The innermost function that runs
user code is on top of the stack; its user code may call `start`, materialize a bean, make
other calls, return or throw.

* The prototypes, session and thread-local beans that calls create do not matter to a start,
  and the functions that run their user code are frames without a content.
* The callbacks of a rollback are left out, and so is `stop`, after which the context is gone.
-/

namespace Ctorium

namespace Registry

/-- A singleton that `materializeEagerSingletons` collects: an eager one that is not bound, and not
    an alias. -/
def isEager (r : Registry) (descId : DescriptorId) : Bool :=
  r.descriptors[descId]?.any fun d =>
    d.lifetime == .singleton && d.origin != .runtimeBinding && !d.lazy &&
      d.primaryDescriptor == some descId

/-- The eager singletons in the order of the table, each with its priority. -/
def collectedEager (r : Registry) : List (ℤ × DescriptorId) :=
  ((List.range r.descriptors.length).filter r.isEager).map fun id => (r.priorityOf id, id)

/-- The eager singletons by descending priority. -/
def eagerSingletons (r : Registry) : List DescriptorId :=
  (r.stdSort.sort (fun a b => decide (b.1 < a.1)) r.collectedEager).map Prod.snd

/-- The contributions are released after the start. -/
def completeStart (r : Registry) : Registry := { r with pending := [] }

/-- The singletons in the order in which `stopRegistryOwnedBeans` destroys them. -/
def sweptSingletons (r : Registry) : List (DescriptorId × Addr) :=
  r.singletons.insertionOrder.reverse.filterMap fun descId =>
    (r.singletons.find descId).map (descId, ·)

/-- `stopRegistryOwnedBeans`, which does nothing on a registry that is not started. -/
def stopOwnedBeans (r : Registry) : Registry :=
  if r.started then { r with started := false, singletons := r.singletons.releaseAll } else r

def rollbackFailedStart (r : Registry) : Registry :=
  { r with startLifecyclePending := [] }.stopOwnedBeans

end Registry

namespace Startup

open BeanContext (Call)

abbrev ListenerToken := ℕ

inductive Event
  | onInitialized
  | onCreated
  deriving DecidableEq, Repr

/-- The callbacks of a new singleton. -/
inductive Stage
  | onInitialized
  | postConstruct
  | onCreated
  deriving DecidableEq, Repr

/-- What the calls bring about. -/
inductive Effect
  | constructed (descId : DescriptorId) (mem : Addr)
  | destroyed (descId : DescriptorId) (mem : Addr)
  | dispatched (object : Addr) (event : Event)
  | startThrew
  deriving DecidableEq, Repr

/-- A function that is under way, and what it still has to do. -/
inductive Frame
  /-- `dispatchBeanContextStartLifecycle` dispatches an event. -/
  | beanContext (event : Event)
  /-- `dispatchBoundSingletonLifecycle` dispatches an event; the singletons `rest` follow. -/
  | bound (sb : StartBound) (event : Event) (rest : List StartBound)
  /-- `materializeEagerSingletons` has called the function above, and goes on with `rest`. -/
  | eager (rest : List DescriptorId)
  /-- `materializeOneImpl` runs the constructor of a singleton, or a callback of the new one. -/
  | constructing (descId : DescriptorId)
  | announcing (mem : Addr) (stage : Stage)
  /-- Another function that runs user code. -/
  | other
  deriving DecidableEq, Repr

/-- The frame is one of `BeanContext::start`. -/
def Frame.isStart : Frame → Bool
  | .beanContext _ | .bound .. | .eager _ => true
  | .constructing _ | .announcing .. | .other => false

/-- The singleton that the thread has claimed in this frame. -/
def Frame.claimed? : Frame → Option DescriptorId
  | .constructing descId => some descId
  | _ => none

structure State where
  context : BeanContext
  /-- The listeners of the root and of its scopes that wait for the start, and those in the
      store. -/
  deferredListeners : List ListenerToken := []
  listeners : List ListenerToken := []
  /-- The singletons in `materializing_`. -/
  materializing : List DescriptorId := []
  /-- The functions under way, the innermost one first. -/
  stack : List Frame := []
  effects : List Effect := []
  /-- The contributions when the registry last became started, and whether `start` has been called
      since (history). -/
  submitted : List ContributedDescriptor := []
  again : Bool := false

namespace State

variable (s : State)

abbrev core : Registry := s.context.core

def setCore (core : Registry) : State := { s with context := s.context.withCore core }

def setStack (stack : List Frame) : State := { s with stack := stack }

def perform (effects : List Effect) : State := { s with effects := s.effects ++ effects }

/-- `flushDeferredListeners_` of the root and of its scopes. -/
def flush : State :=
  { s with deferredListeners := [], listeners := s.listeners ++ s.deferredListeners }

/-- A start that throws is rolled back. -/
def rollback : State :=
  { (s.setCore s.core.rollbackFailedStart).perform
      ((if s.core.started then s.core.sweptSingletons.map fun x => .destroyed x.1 x.2 else []) ++
        [.startThrew]) with
    materializing := [] }

/-- A start is under way. -/
def Starting : Prop := ∃ f ∈ s.stack, f.isStart = true

instance : Decidable s.Starting := by
  unfold Starting
  infer_instance

/-- User code that throws makes a start throw: it is a callback of the start itself, or of an
    eager singleton. -/
def FailsStart : Prop :=
  match s.stack with
  | .beanContext _ :: _ | .bound .. :: _ | _ :: .eager _ :: _ => True
  | _ => False

instance : Decidable s.FailsStart := by
  unfold FailsStart
  split <;> infer_instance

end State

/-! ## The steps of a start -/

/-- `materializeEagerSingletons` goes on with a list of singletons, above the given stack. One that
    is under construction on this thread closes a dependency cycle. -/
def enterEager (s : State) (stack : List Frame) : List DescriptorId → State
  | [] => (s.setCore s.core.completeStart).setStack stack
  | d :: ds =>
    if (s.core.singletons.find d).isSome then enterEager s stack ds
    else if d ∈ s.materializing then s.rollback.setStack stack
    else { s.setStack (.constructing d :: .eager ds :: stack) with
      materializing := d :: s.materializing }

/-- `dispatchBoundSingletonLifecycle` goes on with a list of singletons. -/
def enterBound (s : State) (stack : List Frame) : List StartBound → State
  | [] => enterEager (s.setCore { s.core with startLifecyclePending := [] }) stack
      s.core.eagerSingletons
  | sb :: rest => (s.perform [.dispatched sb.boundInstance .onInitialized]).setStack
      (.bound sb .onInitialized rest :: stack)

/-- The part of `BeanContext::start` after `Registry::start`. -/
def enterStart (s : State) (stack : List Frame) : State :=
  if s.core.beanContextStartLifecyclePending then
    ((s.flush.setCore { s.core with beanContextStartLifecyclePending := false }).perform
      [.dispatched s.context.self .onInitialized]).setStack (.beanContext .onInitialized :: stack)
  else enterBound s.flush stack s.core.startLifecyclePending

/-- `BeanContext::start` of a registry that is not started. -/
def firstStart (s : State) : State :=
  match s.core.start s.context.self with
  | ⟨core, none⟩ =>
    enterStart { s.setCore core with submitted := core.pending, again := false } s.stack
  | ⟨core, some _⟩ => (s.setCore core).rollback

/-- User code throws, and the exception has left the function that called it: it goes to the user
    code below, unless a start is in between. -/
def passOn (s : State) : List Frame → State
  | .eager _ :: fs => s.rollback.setStack fs
  | fs => s.setStack fs

/-- A callback or constructor has returned; the creation is complete. -/
def goOn (s : State) : List Frame → State
  | .eager rest :: fs => enterEager s fs rest
  | fs => s.setStack fs

/-- A callback returns. -/
def returnStep (s : State) : Option State :=
  match s.stack with
  | .beanContext .onInitialized :: fs => some <|
      (s.perform [.dispatched s.context.self .onCreated]).setStack (.beanContext .onCreated :: fs)
  | .beanContext .onCreated :: fs => some (enterBound s fs s.core.startLifecyclePending)
  | .bound sb .onInitialized rest :: fs => some <|
      (s.perform [.dispatched sb.boundInstance .onCreated]).setStack
        (.bound sb .onCreated rest :: fs)
  | .bound _ .onCreated rest :: fs => some (enterBound s fs rest)
  | .announcing mem .onInitialized :: fs => some (s.setStack (.announcing mem .postConstruct :: fs))
  | .announcing mem .postConstruct :: fs => some <|
      (s.perform [.dispatched mem .onCreated]).setStack (.announcing mem .onCreated :: fs)
  | .announcing _ .onCreated :: fs => some (goOn s fs)
  | .other :: fs => some (s.setStack fs)
  | _ => none

/-- The constructor of a singleton returns: the object is stored, and its creation announced. -/
def constructedStep (s : State) (d : DescriptorId) (mem : Addr) (fs : List Frame) : State :=
  { ((s.setCore { s.core with singletons := s.core.singletons.store d mem }).perform
      [.constructed d mem, .dispatched mem .onInitialized]).setStack
        (.announcing mem .onInitialized :: fs) with
    materializing := s.materializing.erase d }

/-- User code throws. -/
def throwStep (s : State) : Option State :=
  match s.stack with
  | .beanContext _ :: fs | .bound .. :: fs => some (s.rollback.setStack fs)
  | .constructing d :: fs => some (passOn { s with materializing := s.materializing.erase d } fs)
  | .announcing .. :: fs | .other :: fs => some (passOn s fs)
  | _ => none

/-- A singleton that `materializeOneImpl` constructs when it is resolved: its own primary, not
    bound, and neither there nor under construction. -/
def constructible (s : State) (d : DescriptorId) : Bool :=
  s.core.started && (s.core.descriptors[d]?.any fun desc =>
    desc.lifetime == .singleton && desc.origin != .runtimeBinding &&
      desc.primaryDescriptor == some d) &&
        (s.core.singletons.find d).isNone && decide (d ∉ s.materializing)

/-- What user code does. -/
inductive Action
  | start
  /-- `on<T>` registers a listener. -/
  | on (token : ListenerToken)
  /-- A call other than `start`, up to the callbacks that it runs. -/
  | call (c : Call)
  /-- A function is called that runs user code. -/
  | enter
  /-- A singleton is resolved that is not there. -/
  | materialize (d : DescriptorId)
  /-- The constructor returns its object. -/
  | constructed (mem : Addr)
  | returns
  | throws

def step (s : State) : Action → Option State
  | .start =>
    if s.core.started then some (enterStart { s with again := true } s.stack)
    else if s.stack = [] then some (firstStart s) else none
  | .on token => some <|
    if s.core.started then { s with listeners := s.listeners ++ [token] }
    else { s with deferredListeners := s.deferredListeners ++ [token] }
  | .call .start => none
  | .call c => some { s with context := (s.context.exec c).state }
  | .enter => if s.core.started then some (s.setStack (.other :: s.stack)) else none
  | .materialize d =>
    if constructible s d then
      some { s.setStack (.constructing d :: s.stack) with materializing := d :: s.materializing }
    else none
  | .constructed mem =>
    match s.stack with
    | .constructing d :: fs => some (constructedStep s d mem fs)
    | _ => none
  | .returns => returnStep s
  | .throws => throwStep s

/-- The calls on a context. -/
def machine : Machine State Action where
  Init s := ∃ stdSort self, s = { context := .fresh stdSort self }
  step := step

/-- The state before any call, of a program that sorts by insertion. -/
abbrev initial : State := { context := .initial }

end Startup

end Ctorium
