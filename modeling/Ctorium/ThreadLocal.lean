import Ctorium.Basic
import Ctorium.Lib.Machine
import Mathlib.Logic.Function.Basic

/-!
# Thread-local instances

A thread keeps its thread-local instances in its `TLData`, one list of entries
for each registry. Two parties destroy them: the destructor of the thread's
`TLCleanup`, when the thread exits, and `Registry::stop`, which sweeps the
`TLData` of the threads in `tlThreadStores_`.

* `TLData` and `TLCleanup` are `thread_local` objects: they are constructed when
  the thread first uses them, and destroyed in the reverse order when it exits.
* `materializeThreadLocalInstance` uses `TLData`, then `TLCleanup`, and on the
  first touch of a registry records it in `registered` and pushes the `TLData`
  to `tlThreadStores_`. `claimMaterializationOrWait`, on the way to a singleton or
  session bean, uses `TLCleanup` only and records the registry in `registered`.
* The constructors that run are user code and resolve further beans: a thread
  has a stack of constructions, `materializationStack`, which its registries share.
* User code also runs while a thread exits: the hooks of the instances that
  `cleanupCurrentThread` destroys, and the destructors of other `thread_local` objects.

Every critical section of `tlMutex_` is one step, together with the destructions
that follow it, whose operands are local to the caller. Constructors, hooks and
listeners may throw at every point.
-/

namespace Ctorium.ThreadLocal

open Function

abbrev ThreadId := ℕ
abbrev RegistryId := ℕ

/-- A thread-local instance, which has an identity besides its address. -/
abbrev InstanceId := ℕ

/-! ## Threads -/

/-- The two `thread_local` objects of a thread. -/
inductive TLObject
  | data
  | cleanup
  deriving DecidableEq, Repr

/-- An entry of `materializationStack`. -/
structure Frame where
  descId : DescriptorId
  /-- The registry that the thread-local instance under construction is to be
      stored for; `none` once it is stored, and for beans of other lifetimes. -/
  storing : Option RegistryId
  deriving DecidableEq, Repr

/-- The way of a thread to its exit. -/
inductive Status
  | live
  /-- The thread destroys its `thread_local` objects, of these two the first of the list next. -/
  | tearing (objects : List TLObject)
  /-- `~TLCleanup` runs, with the registries that it still has to visit. -/
  | cleaning (todo : List RegistryId) (objects : List TLObject)
  /-- `~TLCleanup` found entries for a registry, and is to call its
      `cleanupCurrentThread`. -/
  | collecting (r : RegistryId) (todo : List RegistryId) (objects : List TLObject)
  /-- `cleanupCurrentThread` has collected the entries for a registry, and runs the hooks of
      their destruction. -/
  | hooks (todo : List RegistryId) (objects : List TLObject)
  | exited
  deriving DecidableEq, Repr

/-- User code runs: on a thread that lives, in a hook, or in a destructor. -/
def Status.runsUserCode : Status → Bool
  | .live | .tearing _ | .hooks .. => true
  | .cleaning .. | .collecting .. | .exited => false

/-- An object that an exiting thread constructs is the next one to be destroyed. -/
def Status.construct (o : TLObject) : Status → Status
  | .tearing objects => .tearing (o :: objects)
  | .cleaning todo objects => .cleaning todo (o :: objects)
  | .collecting r todo objects => .collecting r todo (o :: objects)
  | .hooks todo objects => .hooks todo (o :: objects)
  | st => st

/-- A thread with its `TLData` and `TLCleanup`. -/
structure Thread where
  status : Status := .live
  /-- The `thread_local` objects constructed so far, in this order. -/
  constructed : List TLObject := []
  /-- `TLCleanup::registered`. -/
  registered : List RegistryId := []
  /-- The registries on which the thread has begun to materialize a thread-local
      bean. A history: no step reads it. -/
  touched : List RegistryId := []
  /-- `TLData::instances`, in insertion order. -/
  entries : RegistryId → List (DescriptorId × InstanceId) := fun _ => []
  /-- `materializationStack`, innermost first. -/
  stack : List Frame := []

namespace Thread

/-- The use of a `thread_local` object, which constructs it the first time. -/
def use (th : Thread) (o : TLObject) : Thread :=
  if o ∈ th.constructed then th
  else { th with constructed := th.constructed ++ [o], status := th.status.construct o }

/-- A `thread_local` object has been destroyed. `TLCleanup` is there while its destructor runs. -/
def destroyed (th : Thread) (o : TLObject) : Bool :=
  decide (o ∈ th.constructed) && match th.status with
    | .live => false
    | .tearing objects => decide (o ∉ objects)
    | .cleaning _ objects | .collecting _ _ objects | .hooks _ objects =>
      decide (o ∉ .cleanup :: objects)
    | .exited => true

/-- `cleanup.registered.emplace`, if the registry is not there yet. -/
def register (th : Thread) (r : RegistryId) : Thread :=
  if r ∈ th.registered then th else { th with registered := th.registered ++ [r] }

/-- The loop of `~TLCleanup` goes by an iterator of `registered`, which an insertion may
    invalidate. -/
def invalidates (th : Thread) (r : RegistryId) : Bool :=
  match th.status with
  | .hooks .. => decide (r ∉ th.registered)
  | _ => false

/-- `TLData::findInstance`. -/
def findInstance (th : Thread) (r : RegistryId) (d : DescriptorId) : Option InstanceId :=
  (th.entries r).lookup d

/-- `TLData::storeInstance`: a second store for a descriptor takes the place of
    the first one. -/
def storeInstance (th : Thread) (r : RegistryId) (d : DescriptorId) (i : InstanceId) : Thread :=
  { th with
    entries := update th.entries r
      (if (th.findInstance r d).isSome then
        (th.entries r).map fun e => if e.1 = d then (d, i) else e
      else th.entries r ++ [(d, i)]) }

/-- `TLData::hasEntriesFor`. -/
def hasEntriesFor (th : Thread) (r : RegistryId) : Bool := !(th.entries r).isEmpty

/-- `TLData::eraseRegistry`. -/
def eraseRegistry (th : Thread) (r : RegistryId) : Thread :=
  { th with entries := update th.entries r [] }

/-- The `TLData` of the thread is constructed and not destroyed yet. -/
def dataAlive (th : Thread) : Bool := decide (.data ∈ th.constructed) && !th.destroyed .data

/-- `CycleGuard`: a descriptor that is already under construction on this thread
    is a cycle, and nothing is pushed then. -/
def cycleGuard (th : Thread) (f : Frame) : Thread :=
  if f.descId ∈ th.stack.map Frame.descId then th else { th with stack := f :: th.stack }

end Thread

/-! ## Registries -/

/-- The life of a registry. -/
inductive Phase
  | fresh
  | started
  /-- `rollbackFailedStart` has run. -/
  | failed
  /-- `stop` has published that the registry is stopped, and has not yet swept
      the thread-local instances. -/
  | stopping
  | stopped
  /-- The registry object is gone, and `weak_ptr::lock` fails. -/
  | dropped
  deriving DecidableEq, Repr

/-- Beans can be materialized. After a failed start, handles still can. -/
def Phase.usable (p : Phase) : Bool := p = .started ∨ p = .failed

/-- The registry has been started, and `stop` has not swept it. -/
def Phase.active (p : Phase) : Bool := p = .started ∨ p = .failed ∨ p = .stopping

structure Registry where
  phase : Phase := .fresh
  /-- `tlThreadStores_`: the threads whose `TLData` it points to. -/
  tlThreadStores : List ThreadId := []

/-! ## The system -/

/-- Who ran an instance through `executeDestructionLifecycle`. -/
inductive Destroyer
  | exit (t : ThreadId)
  | stop (r : RegistryId)
  deriving DecidableEq, Repr

/-- A thread-local instance that was stored. -/
structure Instance where
  id : InstanceId
  thread : ThreadId
  registry : RegistryId
  deriving DecidableEq, Repr

structure State where
  threads : ThreadId → Thread := fun _ => {}
  registries : RegistryId → Registry := fun _ => {}
  nextId : InstanceId := 0
  /-- All instances ever stored. -/
  created : List Instance := []
  /-- All destructions, the latest one first. -/
  destroyed : List (InstanceId × Destroyer) := []
  /-- A destroyed `thread_local` object has been used, or an iterator that is no longer valid. -/
  dangling : Bool := false

namespace State

def setThread (s : State) (t : ThreadId) (th : Thread) : State :=
  { s with threads := update s.threads t th }

def setRegistry (s : State) (r : RegistryId) (rg : Registry) : State :=
  { s with registries := update s.registries r rg }

def setPhase (s : State) (r : RegistryId) (p : Phase) : State :=
  s.setRegistry r { s.registries r with phase := p }

/-- The successful start of a registry, or the retry of a failed one. -/
def start (s : State) (r : RegistryId) : Option State :=
  if (s.registries r).phase = .fresh ∨ (s.registries r).phase = .failed then
    some (s.setPhase r .started)
  else none

/-- `rollbackFailedStart`, which leaves thread-local instances alone. -/
def rollbackFailedStart (s : State) (r : RegistryId) : Option State :=
  if (s.registries r).phase = .started then some (s.setPhase r .failed) else none

/-- The head of `claimMaterializationOrWait`, which every first resolution of a
    singleton or session bean passes. -/
def claimMaterialization (s : State) (t : ThreadId) (r : RegistryId) : Option State :=
  let th := s.threads t
  if th.status.runsUserCode ∧ (s.registries r).phase.usable then
    some { s.setThread t ((th.use .cleanup).register r) with
      dangling := s.dangling || th.destroyed .cleanup || th.invalidates r }
  else none

/-- The construction of a singleton, session or prototype bean begins. -/
def enter (s : State) (t : ThreadId) (d : DescriptorId) : Option State :=
  if (s.threads t).status.runsUserCode then
    some (s.setThread t ((s.threads t).cycleGuard ⟨d, none⟩))
  else none

/-- `materializeThreadLocalInstance` up to the constructor, for a descriptor that
    the thread has no instance of. -/
def materializeThreadLocal (s : State) (t : ThreadId) (r : RegistryId) (d : DescriptorId) :
    Option State :=
  let th := s.threads t
  let rg := s.registries r
  if th.status.runsUserCode ∧ rg.phase.usable ∧ th.findInstance r d = none then
    let th' := (th.use .data).use .cleanup
    let rg' := if r ∈ th'.registered then rg
      else { rg with tlThreadStores := rg.tlThreadStores ++ [t] }
    let th'' := { th'.register r with touched := r :: th.touched }
    some { (s.setRegistry r rg').setThread t (th''.cycleGuard ⟨d, some r⟩) with
      dangling :=
        s.dangling || th.destroyed .data || th.destroyed .cleanup || th.invalidates r }
  else none

/-- The constructor of the innermost bean of the thread returns, and the bean is
    thread-local: it is stored, and its lifecycle hooks follow. User code does not
    touch thread-local beans during stop, so the registry is usable. -/
def storeThreadLocal (s : State) (t : ThreadId) : Option State :=
  match (s.threads t).stack with
  | ⟨d, some r⟩ :: rest =>
    let th := { s.threads t with stack := ⟨d, none⟩ :: rest }
    if (s.registries r).phase.usable then
      some { s.setThread t (th.storeInstance r d s.nextId) with
        nextId := s.nextId + 1
        created := ⟨s.nextId, t, r⟩ :: s.created }
    else none
  | _ => none

/-- The innermost materialization of the thread returns or throws. -/
def leave (s : State) (t : ThreadId) : Option State :=
  match (s.threads t).stack with
  | _ :: rest => some (s.setThread t { s.threads t with stack := rest })
  | [] => none

/-- The thread returns from its main function. -/
def exit (s : State) (t : ThreadId) : Option State :=
  if (s.threads t).status = .live ∧ (s.threads t).stack = [] then
    some (s.setThread t { s.threads t with status := .tearing (s.threads t).constructed.reverse })
  else none

/-- The exiting thread turns to its next `thread_local` object. `~TLCleanup` uses
    `tlData()`, which constructs the object if there never was one. -/
def teardown (s : State) (t : ThreadId) : Option State :=
  let th := s.threads t
  if th.stack = [] then
    match th.status with
    | .tearing (.data :: objects) =>
      some (s.setThread t { th with status := .tearing objects, entries := fun _ => [] })
    | .tearing (.cleanup :: objects) =>
      let th' := { th with status := .cleaning th.registered objects }
      some { s.setThread t (th'.use .data) with dangling := s.dangling || th'.destroyed .data }
    | .tearing [] => some (s.setThread t { th with status := .exited })
    | _ => none
  else none

/-- One turn of the loop of `~TLCleanup`, up to the call of `cleanupCurrentThread`. -/
def cleanupNext (s : State) (t : ThreadId) : Option State :=
  let th := s.threads t
  match th.status with
  | .cleaning (r :: todo) objects =>
    if (s.registries r).phase ≠ .dropped ∧ th.hasEntriesFor r then
      some (s.setThread t { th with status := .collecting r todo objects })
    else some (s.setThread t { th with status := .cleaning todo objects })
  | .cleaning [] objects => some (s.setThread t { th with status := .tearing objects })
  | _ => none

/-- The destructions of the entries of a thread for a registry. -/
def destructions (th : Thread) (r : RegistryId) (by' : Destroyer) : List (InstanceId × Destroyer) :=
  (th.entries r).map fun e => (e.2, by')

/-- `cleanupCurrentThread`, up to the hooks of the instances that it destroys. -/
def cleanupCurrentThread (s : State) (t : ThreadId) : Option State :=
  let th := s.threads t
  match th.status with
  | .collecting r todo objects =>
    let rg := s.registries r
    let s' := s.setRegistry r { rg with tlThreadStores := rg.tlThreadStores.filter (· ≠ t) }
    some { s'.setThread t { th.eraseRegistry r with status := .hooks todo objects } with
      destroyed := destructions th r (.exit t) ++ s.destroyed }
  | _ => none

/-- The hooks have run, and `~TLCleanup` goes on. -/
def hooksReturn (s : State) (t : ThreadId) : Option State :=
  let th := s.threads t
  match th.status with
  | .hooks todo objects =>
    if th.stack = [] then some (s.setThread t { th with status := .cleaning todo objects })
    else none
  | _ => none

/-- `stop` up to the sweep. -/
def stopBegin (s : State) (r : RegistryId) : Option State :=
  if (s.registries r).phase = .started then some (s.setPhase r .stopping) else none

/-- `collectFor` on the `TLData` of one thread after the other, with what is
    collected. -/
def collectAll (r : RegistryId) (by' : Destroyer) :
    List ThreadId → (ThreadId → Thread) → (ThreadId → Thread) × List (InstanceId × Destroyer)
  | [], threads => (threads, [])
  | t :: ts, threads =>
    let rest := collectAll r by' ts (update threads t ((threads t).eraseRegistry r))
    (rest.1, destructions (threads t) r by' ++ rest.2)

/-- The sweep of `stop` over `tlThreadStores_`. -/
def stopSweep (s : State) (r : RegistryId) : Option State :=
  let rg := s.registries r
  if rg.phase = .stopping then
    let swept := collectAll r (.stop r) rg.tlThreadStores s.threads
    some { s.setRegistry r { phase := .stopped, tlThreadStores := [] } with
      threads := swept.1
      destroyed := swept.2 ++ s.destroyed
      dangling := s.dangling || rg.tlThreadStores.any fun t => !(s.threads t).dataAlive }
  else none

/-- The last owner of the registry lets go of it. -/
def drop (s : State) (r : RegistryId) : Option State :=
  if (s.registries r).phase = .stopped then some (s.setPhase r .dropped) else none

end State

inductive Action
  | start (r : RegistryId)
  | rollbackFailedStart (r : RegistryId)
  | claimMaterialization (t : ThreadId) (r : RegistryId)
  | enter (t : ThreadId) (d : DescriptorId)
  | materializeThreadLocal (t : ThreadId) (r : RegistryId) (d : DescriptorId)
  | storeThreadLocal (t : ThreadId)
  | leave (t : ThreadId)
  | exit (t : ThreadId)
  | teardown (t : ThreadId)
  | cleanupNext (t : ThreadId)
  | cleanupCurrentThread (t : ThreadId)
  | hooksReturn (t : ThreadId)
  | stopBegin (r : RegistryId)
  | stopSweep (r : RegistryId)
  | drop (r : RegistryId)
  deriving DecidableEq, Repr

def step (s : State) : Action → Option State
  | .start r => s.start r
  | .rollbackFailedStart r => s.rollbackFailedStart r
  | .claimMaterialization t r => s.claimMaterialization t r
  | .enter t d => s.enter t d
  | .materializeThreadLocal t r d => s.materializeThreadLocal t r d
  | .storeThreadLocal t => s.storeThreadLocal t
  | .leave t => s.leave t
  | .exit t => s.exit t
  | .teardown t => s.teardown t
  | .cleanupNext t => s.cleanupNext t
  | .cleanupCurrentThread t => s.cleanupCurrentThread t
  | .hooksReturn t => s.hooksReturn t
  | .stopBegin r => s.stopBegin r
  | .stopSweep r => s.stopSweep r
  | .drop r => s.drop r

/-- All interleavings of any number of threads and registries. -/
def machine : Machine State Action where
  Init s := s = {}
  step := step

end Ctorium.ThreadLocal
