import Ctorium.Listeners
import Ctorium.ThreadLocal

/-!
# Lives of bean instances

The instances of a root are in four kinds of stores: singletons, session instances of a
scope and thread-local instances of a thread are in the order in which they were stored,
prototypes in the slots of the prototype store. Each creation and each destruction of an
instance is a sequence of events and hooks, some of which are user code. A *frame* is such
a sequence under way; the machine of this module performs the steps of the frames, and of
the sweeps that destroy the instances of a store, in any order that the waiting of a sweep
for its current instance allows.

* `materializeOneImpl` constructs a singleton, or a prototype, and announces it for the scope
  of the resolution context. A prototype that is constructed in place has its slot before
  its constructor runs.
* `releasePrototypeLast` destroys a prototype whose last handle goes. `stopRegistryOwnedBeans`
  destroys the singletons, the last one stored first, and then the prototypes, the one in
  the highest slot first; `Registry::stop` goes on with the thread-local instances.
* `stopScope` and `cleanupCurrentThread` destroy the instances of a scope and of a thread, the
  last one stored first.

An address stands for one instance, and is not used for a second one. Which calls claim a
descriptor, wait or fail is the matter of other modules.
-/

namespace Ctorium.Lifecycle

open Function (update)
open ThreadLocal (ThreadId)

abbrev SlotId := ℕ

/-- The store that an instance belongs to. -/
inductive Owner
  | singletons
  | prototypes
  | session (scopeNameId : NameId)
  | threadLocal (thread : ThreadId)
  deriving DecidableEq, Repr

/-- An instance of a primary descriptor. -/
structure Instance where
  owner : Owner
  descId : DescriptorId
  mem : Addr
  deriving DecidableEq, Repr

/-- A step in the life of an instance. An event is dispatched for an emitter scope; `none` is
    `kNoScope`. -/
inductive Stage
  | construct
  | onInitialized (emitterScope : Option NameId)
  | postConstruct
  | onCreated (emitterScope : Option NameId)
  | onPreDestroy (emitterScope : Option NameId)
  | preDestroy
  | onDestroyed (emitterScope : Option NameId)
  | destructor
  | deallocation
  deriving DecidableEq, Repr

/-- The emitter scope, if the step is an event. -/
def Stage.emitter? : Stage → Option (Option NameId)
  | .onInitialized e | .onCreated e | .onPreDestroy e | .onDestroyed e => some e
  | _ => none

/-- What the descriptors of a root say about their beans. -/
structure Table where
  postConstruct : DescriptorId → Bool
  preDestroy : DescriptorId → Bool
  /-- The bean of the context itself, which the root does not own. -/
  contextBean : DescriptorId

/-! ## Frames -/

/-- Who destroys the instances of stores. -/
inductive Sweeper
  | root
  | scope (scopeNameId : NameId)
  | thread (thread : ThreadId)
  deriving DecidableEq, Repr

/-- What a frame is for. -/
inductive Role
  | creation
  /-- The last handle of a prototype has gone; its slot is reclaimed in the end. -/
  | release (slot : SlotId)
  | sweep (sweeper : Sweeper)
  deriving DecidableEq, Repr

/-- A creation or destruction under way: the steps of the instance that are left. -/
structure Frame where
  bean : Instance
  todo : List Stage
  role : Role
  deriving DecidableEq, Repr

/-- The scope for which a creation is announced: singletons and prototypes are announced for the
    scope of the resolution context, if it has one. -/
def creationScope (owner : Owner) (ctxScope : Option NameId) : Option NameId :=
  match owner with
  | .singletons | .prototypes => ctxScope
  | .session n => some n
  | .threadLocal _ => none

/-- The scope for which a destruction is announced. -/
def destructionScope : Owner → Option NameId
  | .session n => some n
  | .singletons | .prototypes | .threadLocal _ => none

/-- The steps after the constructor. -/
def creationStages (T : Table) (b : Instance) (ctxScope : Option NameId) : List Stage :=
  .onInitialized (creationScope b.owner ctxScope) ::
    ((if T.postConstruct b.descId then [.postConstruct] else []) ++
      [.onCreated (creationScope b.owner ctxScope)])

/-- The steps of a bound instance, which the user has constructed. -/
def boundStages (b : Instance) : List Stage :=
  [.onInitialized (destructionScope b.owner), .onCreated (destructionScope b.owner)]

/-- `executeDestructionLifecycle`, and the `destroyWithoutDeallocation` of a restart, which keeps
    the memory. The function that destroys the bean of the context does nothing, and its memory is
    not released. -/
def destructionStages (T : Table) (b : Instance) (deferDeallocation : Bool) : List Stage :=
  .onPreDestroy (destructionScope b.owner) ::
    ((if T.preDestroy b.descId then [.preDestroy] else []) ++
      .onDestroyed (destructionScope b.owner) :: .destructor ::
        if deferDeallocation ∨ b.descId = T.contextBean then [] else [.deallocation])

/-! ## State -/

/-- A construction under way. -/
structure Construction where
  bean : Instance
  /-- The scope of the resolution context. -/
  ctxScope : Option NameId
  /-- The slot of a prototype that is constructed in place. -/
  slot : Option SlotId
  /-- The constructor has returned, and the instance is not in its store yet. -/
  returned : Bool := false
  deriving DecidableEq, Repr

/-- A slot of the prototype store that is in use, and whether it has been activated. -/
structure Slot where
  bean : Instance
  active : Bool
  deriving DecidableEq, Repr

/-- How far `Registry::stop` has come. -/
inductive Stop
  | idle
  | singletons
  /-- The slots from `next` on have been swept. -/
  | prototypes (next : SlotId)
  | threadLocals
  deriving DecidableEq, Repr

structure State where
  started : Bool := false
  scopeState : NameId → ScopeState := fun _ => .stopped
  /-- The `deferDeallocation` of the last stop of each scope: whether it is a restart. -/
  deferDeallocation : NameId → Bool := fun _ => false
  /-- The instances in a store other than that of the prototypes, in insertion order. -/
  stored : Owner → List Instance := fun _ => []
  slots : SlotId → Option Slot := fun _ => none
  slotCount : ℕ := 0
  constructions : List Construction := []
  frames : List Frame := []
  stop : Stop := .idle
  /-- The instances that a sweep is still to destroy, the next one first. -/
  queue : Sweeper → List Instance := fun _ => []
  /-- The steps that have been performed. -/
  trace : List (Instance × Stage) := []
  /-- The objects in the order in which their constructors returned. -/
  completed : List Addr := []
  /-- The instances in the order in which they came into their stores, and the scopes of the
      resolution contexts that they were created in. -/
  published : List Instance := []
  contexts : Instance → Option NameId := fun _ => none
  /-- The instances whose destruction has been decided. -/
  doomed : List Instance := []
  /-- The instances of its store that were alive when a sweep began, for each sweep. -/
  sweeps : List (List Instance) := []

namespace State

variable (s : State)

/-- The instances whose destructor has been called, in this order. -/
def destructed : List Instance :=
  s.trace.filterMap fun e => if e.2 = .destructor then some e.1 else none

/-- The address has not been used. -/
def Fresh (m : Addr) : Prop :=
  m ∉ s.completed ∧ m ∉ s.published.map Instance.mem ∧ m ∉ s.constructions.map (·.bean.mem) ∧
    m ∉ s.doomed.map Instance.mem

instance (m : Addr) : Decidable (s.Fresh m) := by
  unfold Fresh
  infer_instance

/-- The constructed instances of a store whose destruction has not been decided: those in the store,
    and those whose constructor has returned. -/
def alive (o : Owner) : List Instance :=
  (s.published ++ (s.constructions.filter (·.returned)).map Construction.bean).filter
    fun b => b.owner = o ∧ b ∉ s.doomed

def addFrame (f : Frame) : State := { s with frames := f :: s.frames }

def setQueue (p : Sweeper) (q : List Instance) : State := { s with queue := update s.queue p q }

def setSlot (k : SlotId) (slot : Option Slot) : State :=
  { s with slots := update s.slots k slot, slotCount := max s.slotCount (k + 1) }

def record (b : Instance) (e : Stage) : State := { s with trace := s.trace ++ [(b, e)] }

def doom (bs : List Instance) : State := { s with doomed := s.doomed ++ bs }

/-- A sweep of a store begins. -/
def beginSweep (o : Owner) : State := { s with sweeps := s.alive o :: s.sweeps }

/-- The instance is in its store, and its creation is announced. -/
def publish (T : Table) (c : Construction) : State :=
  { s with
    constructions := s.constructions.erase c
    published := s.published ++ [c.bean]
    contexts := update s.contexts c.bean c.ctxScope
    frames := ⟨c.bean, creationStages T c.bean c.ctxScope, .creation⟩ :: s.frames }

def store (b : Instance) : State :=
  { s with stored := update s.stored b.owner (s.stored b.owner ++ [b]) }

/-- The memory of the instances is kept for a restart. -/
def defers : Role → Bool
  | .sweep (.scope n) => s.deferDeallocation n
  | _ => false

/-- The instance is destroyed by a sweep or a release. -/
def destroy (T : Table) (b : Instance) (role : Role) : State :=
  (s.doom [b]).addFrame ⟨b, destructionStages T b (s.defers role), role⟩

/-- A slot that the prototype store can allocate. -/
def SlotFree (k : SlotId) : Prop :=
  k ≤ s.slotCount ∧ s.slots k = none ∧ ∀ f ∈ s.frames, f.role ≠ .release k

instance (k : SlotId) : Decidable (s.SlotFree k) := by
  unfold SlotFree
  infer_instance

/-- The sweep does not wait for an instance to be destroyed. -/
def Idle (p : Sweeper) : Prop := ∀ f ∈ s.frames, f.role ≠ .sweep p

instance (p : Sweeper) : Decidable (s.Idle p) := by
  unfold Idle
  infer_instance

end State

/-! ## Steps -/

inductive Action
  /-- `Registry::start` publishes that the registry is started. -/
  | start
  /-- A constructor is called, returns or throws. -/
  | construct (c : Construction)
  | constructed (c : Construction)
  | constructorThrows (c : Construction)
  /-- The new instance is stored, its slot is activated, or it gets a slot. -/
  | store (c : Construction)
  | activate (c : Construction)
  | allocate (c : Construction) (k : SlotId)
  /-- The user has constructed an object, and it is stored as a bound instance: when it is bound, or
      when the root or the scope starts. -/
  | makeObject (m : Addr)
  | storeBound (b : Instance)
  /-- The next step of a frame is performed; a frame is done; a listener or hook of a creation
      throws. -/
  | perform (f : Frame)
  | finish (f : Frame)
  | throws (f : Frame)
  /-- The last handle of the prototype in a slot goes. -/
  | release (k : SlotId)
  /-- `stopRegistryOwnedBeans` begins, called by `Registry::stop` or `rollbackFailedStart`. -/
  | stopRoot
  /-- A sweep destroys the next instance of its queue. -/
  | destroyNext (p : Sweeper)
  | singletonsSwept
  | sweepSlot
  | rollbackReturns
  /-- `Registry::stop` collects the instances of the threads in `tlThreadStores_`. -/
  | collect (threads : List ThreadId)
  | stopReturns
  | startScope (n : NameId)
  /-- `stopScope`, of a stop or of a restart. -/
  | stopScope (n : NameId) (deferDeallocation : Bool)
  | scopeSwept (n : NameId)
  | exitThread (t : ThreadId)
  deriving DecidableEq

section Steps

variable (T : Table) (s : State)

/-- A descriptor has one instance in a store other than that of the prototypes. -/
def unclaimed (b : Instance) : Bool :=
  b.owner = .prototypes ∨ b.descId ∉ (s.stored b.owner).map Instance.descId ∧
    ∀ c ∈ s.constructions, ¬(c.bean.owner = b.owner ∧ c.bean.descId = b.descId)

/-- A construction begins. A prototype that is constructed in place has its slot already. -/
def constructStep (c : Construction) : State :=
  let s := { s with constructions := c :: s.constructions }
  match c.slot with
  | some k => s.setSlot k (some ⟨c.bean, false⟩)
  | none => s

/-- The constructor returns. -/
def constructedStep (c : Construction) : State :=
  { s.record c.bean .construct with
    constructions := { c with returned := true } :: s.constructions.erase c
    completed := s.completed ++ [c.bean.mem] }

/-- The constructor throws, and the slot is reclaimed, unless a sweep has taken its object. -/
def constructorThrowsStep (c : Construction) : State :=
  let s := { s with constructions := s.constructions.erase c }
  match c.slot with
  | some k => if s.slots k = some ⟨c.bean, false⟩ then s.setSlot k none else s
  | none => s

/-- A slot is activated, unless a sweep has taken its object. -/
def activateStep (c : Construction) (k : SlotId) : State :=
  let s := s.publish T c
  if s.slots k = some ⟨c.bean, false⟩ then s.setSlot k (some ⟨c.bean, true⟩) else s

def storeBoundStep (b : Instance) : State :=
  (({ s with published := s.published ++ [b] }).store b).addFrame ⟨b, boundStages b, .creation⟩

def performStep (f : Frame) (e : Stage) (rest : List Stage) : State :=
  { s.record f.bean e with frames := { f with todo := rest } :: s.frames.erase f }

def finishStep (f : Frame) : State := { s with frames := s.frames.erase f }

/-- The begin of `stopRegistryOwnedBeans`. -/
def stopRootStep : State :=
  { (((s.beginSweep .prototypes).beginSweep .singletons).doom (s.stored .singletons)).setQueue .root
      (s.stored .singletons).reverse with
    started := false
    stop := .singletons }

/-- The entries of the threads, the first thread's first. -/
def entriesOf (threads : List ThreadId) : List Instance :=
  threads.flatMap fun t => s.stored (.threadLocal t)

/-- `collectFor` on the stores of the threads, which are left empty. -/
def collectStep (p : Sweeper) (threads : List ThreadId) : State :=
  { (s.doom (entriesOf s threads)).setQueue p (entriesOf s threads).reverse with
    sweeps := threads.map (fun t => s.alive (.threadLocal t)) ++ s.sweeps
    stored := fun o => match o with
      | .threadLocal t => if t ∈ threads then [] else s.stored o
      | _ => s.stored o }

def stopScopeStep (n : NameId) (deferDeallocation : Bool) : State :=
  { ((s.beginSweep (.session n)).doom (s.stored (.session n))).setQueue (.scope n)
      (s.stored (.session n)).reverse with
    scopeState := update s.scopeState n .stopping
    deferDeallocation := update s.deferDeallocation n deferDeallocation }

/-- One step. A step that is not enabled has no successor. -/
def step : Action → Option State
  | .start => if s.started = false then some { s with started := true } else none
  | .construct c =>
    if s.Fresh c.bean.mem ∧ c.returned = false ∧ unclaimed s c.bean ∧
        (∀ k ∈ c.slot, c.bean.owner = .prototypes ∧ s.SlotFree k) then
      some (constructStep s c)
    else none
  | .constructed c =>
    if c ∈ s.constructions ∧ c.returned = false then some (constructedStep s c) else none
  | .constructorThrows c =>
    if c ∈ s.constructions ∧ c.returned = false then some (constructorThrowsStep s c) else none
  | .store c =>
    if c ∈ s.constructions ∧ c.returned = true ∧ c.bean.owner ≠ .prototypes then
      some ((s.publish T c).store c.bean)
    else none
  | .activate c =>
    match c.slot with
    | some k =>
      if c ∈ s.constructions ∧ c.returned = true then some (activateStep T s c k) else none
    | none => none
  | .allocate c k =>
    if c ∈ s.constructions ∧ c.returned = true ∧ c.bean.owner = .prototypes ∧ c.slot = none ∧
        s.SlotFree k then
      some ((s.publish T c).setSlot k (some ⟨c.bean, true⟩))
    else none
  | .makeObject m => if s.Fresh m then some { s with completed := s.completed ++ [m] } else none
  | .storeBound b =>
    if b.mem ∈ s.completed ∧ b.mem ∉ s.published.map Instance.mem ∧
        b.mem ∉ s.constructions.map (·.bean.mem) ∧ b.owner ≠ .prototypes ∧ unclaimed s b then
      some (storeBoundStep s b)
    else none
  | .perform f =>
    match f.todo with
    | e :: rest => if f ∈ s.frames then some (performStep s f e rest) else none
    | [] => none
  | .finish f => if f ∈ s.frames ∧ f.todo = [] then some (finishStep s f) else none
  | .throws f => if f ∈ s.frames ∧ f.role = .creation then some (finishStep s f) else none
  | .release k =>
    match s.slots k with
    | some ⟨b, true⟩ =>
      if ∀ f ∈ s.frames, f.bean ≠ b then some ((s.setSlot k none).destroy T b (.release k))
      else none
    | _ => none
  | .stopRoot => if s.started = true then some (stopRootStep s) else none
  | .destroyNext p =>
    match s.queue p with
    | b :: rest => if s.Idle p then some ((s.setQueue p rest).destroy T b (.sweep p)) else none
    | [] => none
  | .singletonsSwept =>
    if s.stop = .singletons ∧ s.queue .root = [] ∧ s.Idle .root then
      some { s with stored := update s.stored .singletons [], stop := .prototypes s.slotCount }
    else none
  | .sweepSlot =>
    match s.stop with
    | .prototypes (k + 1) =>
      if s.Idle .root then
        match s.slots k with
        | some slot =>
          some { (s.setSlot k none).destroy T slot.bean (.sweep .root) with stop := .prototypes k }
        | none => some { s with stop := .prototypes k }
      else none
    | _ => none
  | .rollbackReturns =>
    if s.stop = .prototypes 0 ∧ s.Idle .root then some { s with stop := .idle } else none
  | .collect threads =>
    if s.stop = .prototypes 0 ∧ s.Idle .root ∧ threads.Nodup then
      some { collectStep s .root threads with stop := .threadLocals }
    else none
  | .stopReturns =>
    if s.stop = .threadLocals ∧ s.queue .root = [] ∧ s.Idle .root then some { s with stop := .idle }
    else none
  | .startScope n =>
    if s.started = true ∧ s.scopeState n = .stopped then
      some { s with scopeState := update s.scopeState n .running }
    else none
  | .stopScope n deferDeallocation =>
    if s.scopeState n = .running then some (stopScopeStep s n deferDeallocation) else none
  | .scopeSwept n =>
    if s.scopeState n = .stopping ∧ s.queue (.scope n) = [] ∧ s.Idle (.scope n) then
      some { s with
        stored := update s.stored (.session n) []
        scopeState := update s.scopeState n .stopped }
    else none
  | .exitThread t =>
    if s.queue (.thread t) = [] ∧ s.Idle (.thread t) then some (collectStep s (.thread t) [t])
    else none

end Steps

/-- The machine of the lives of all instances of a root. -/
def machine (T : Table) : Machine State Action where
  Init s := s = {}
  step := step T

end Ctorium.Lifecycle
