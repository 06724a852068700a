import Ctorium.Basic
import Ctorium.Lib.Chase
import Ctorium.Lib.Machine
import Ctorium.Lib.SwapRemove

/-!
# Materialization of singletons and session beans

The threads of a program resolve beans of one registry. A singleton or a session
bean is materialized at most once per `MaterializationKey`, in the phases of
`Registry::materializeOneImpl` and `Registry::materializeSessionInstance`:

* a lock-free `find` in the instance store;
* `claimMaterializationOrWait`: claim the key by an entry of `materializing_`, or
  wait on `cv_` for the thread that owns it;
* construct the bean outside the lock. User code runs there and may resolve
  other beans on the same thread;
* take the lock again, store the instance (or nothing, after an exception) and
  release the key by removing its entry;
* notify the waiters and run the lifecycle callbacks, user code again.

The state is what the threads share (instance stores, `materializing_`, the wait
slots) and, per thread, the `materializationStack` and the resolves in progress,
innermost first. One step is what one thread does without giving up the lock, or
one lock-free access; the machine interleaves the steps of all threads. Nothing
here stops or restarts the registry or a scope.

Two histories are recorded and read by no step: the instances stored, and the
outcome of every resolve with the stack before and after it.
-/

namespace Ctorium.Materialization

open Function

/-! ## Data model -/

/-- The number that `materializationThreadToken` gives to a thread. Tokens of
    exited threads are recycled; an exited thread and its successor are one
    party here, as a thread exits with an empty stack and an inactive wait slot. -/
abbrev ThreadToken := ℕ

/-- The token that no thread has. -/
def kNoMaterializationThreadToken : ThreadToken := 0

def kMaterializationWaitChunkSize : ℕ := 256

/-- The key that serializes the materialization of a bean: the primary
    descriptor, and the scope of a session bean. -/
structure MaterializationKey where
  descId : DescriptorId := kInvalidDescriptorId
  scope : Option ScopeId := none
  deriving DecidableEq, Repr

/-- A materialization in flight, owned by one thread. -/
structure MaterializingEntry where
  key : MaterializationKey
  threadToken : ThreadToken := kNoMaterializationThreadToken
  deriving DecidableEq, Repr

/-- The outgoing wait edge of a thread. -/
structure MaterializationWait where
  key : MaterializationKey := {}
  active : Bool := false
  deriving DecidableEq, Repr

/-- What a resolve reads of the descriptor table and of the scopes. -/
structure DescriptorFields where
  lifetime : DescriptorId → Lifetime
  origin : DescriptorId → Origin
  primaryDescriptor : DescriptorId → DescriptorId
  sessionSlot : DescriptorId → SessionSlot
  scopeState : ScopeId → ScopeState

/-- The descriptor that is materialized for `d`: its primary if `d` is an alias. -/
def DescriptorFields.primaryOf (D : DescriptorFields) (d : DescriptorId) : DescriptorId :=
  if D.primaryDescriptor d ≠ d ∧ D.primaryDescriptor d ≠ kInvalidDescriptorId then
    D.primaryDescriptor d
  else d

/-- The descriptor table of a started registry: a primary is its own primary, an
    alias has the lifetime of its primary, and the slots of session primaries
    are distinct. -/
structure Descriptors extends DescriptorFields where
  primaryOf_primaryOf : ∀ d, toDescriptorFields.primaryOf (toDescriptorFields.primaryOf d) =
    toDescriptorFields.primaryOf d
  lifetime_primaryOf : ∀ d, lifetime (toDescriptorFields.primaryOf d) = lifetime d
  sessionSlot_inj : ∀ d e, lifetime d = .session → lifetime e = .session →
    toDescriptorFields.primaryOf d = d → toDescriptorFields.primaryOf e = e →
    sessionSlot d = sessionSlot e → d = e

/-- How far a resolve of a key has come. -/
inductive Phase
  /-- About to look the instance up without the lock. -/
  | find
  /-- About to make sure that the thread has a wait slot. -/
  | ensureSlot
  /-- About to take the lock and enter the claim loop. -/
  | claim
  /-- Blocked in `cv_.wait`, and whether a notification has arrived since. -/
  | waiting (notified : Bool)
  /-- Found the instance in the claim loop, about to read it again without the lock. -/
  | refind
  /-- Owns the key and runs the constructor. -/
  | construct
  /-- Constructed `mem`, about to store it under the lock. -/
  | store (mem : Addr)
  /-- The constructor has thrown, about to release the key under the lock. -/
  | fail
  /-- Released the key, about to notify the waiters. -/
  | notify (result : Option Addr)
  /-- Runs the lifecycle callbacks of the stored instance. -/
  | lifecycle (mem : Addr)
  deriving DecidableEq, Repr

/-- A resolve in progress: of a key, or of a prototype or thread-local bean, which
    only takes part through its `CycleGuard`. -/
inductive Call
  | materialize (key : MaterializationKey) (phase : Phase)
  | guarded (descId : DescriptorId)
  deriving DecidableEq, Repr

/-- A resolve in progress, with the stack that it found (history). -/
structure Frame where
  call : Call
  entryStack : List DescriptorId
  deriving DecidableEq, Repr

/-- A thread: its `materializationStack` (top first) and its resolves in
    progress (innermost first). -/
structure Thread where
  materializationStack : List DescriptorId := []
  frames : List Frame := []
  deriving DecidableEq, Repr

/-- How a resolve ended, with the stack when it was called and when it ended
    (history). A bean without a materialization key has key `none`. -/
structure Outcome where
  thread : ThreadToken
  key : Option MaterializationKey
  result : Except Failure Addr
  stackBefore : List DescriptorId
  stackAfter : List DescriptorId

/-- The state that the threads share, and the threads. -/
structure State where
  /-- `SingletonStore`: the instance of each singleton. -/
  singletons : DescriptorId → Option Addr
  /-- `SessionStore` of each scope: the instance in each slot. -/
  sessions : ScopeId → SessionSlot → Option Addr
  materializing : List MaterializingEntry
  waitingByThread : ThreadToken → MaterializationWait
  waitingByThreadCapacity : ℕ
  threads : ThreadToken → Thread
  /-- The instances stored so far, in order (history). -/
  stored : List (MaterializationKey × Addr)
  /-- The resolves ended so far, in order (history). -/
  outcomes : List Outcome

/-- User code runs on a thread outside of every resolve, in a constructor, in a
    lifecycle callback and in the construction of a prototype or thread-local bean. -/
def userCode : List Frame → Bool
  | [] => true
  | ⟨.materialize _ .construct, _⟩ :: _ => true
  | ⟨.materialize _ (.lifecycle _), _⟩ :: _ => true
  | ⟨.guarded _, _⟩ :: _ => true
  | _ => false

/-! ## Messages -/

/-- The message of a dependency cycle on one thread. -/
def intraThreadCycleMessage (key : MaterializationKey) : String :=
  match key.scope with
  | none => "Registry::resolve: dependency cycle detected during singleton materialization."
  | some _ => "Registry::resolve: dependency cycle detected during session bean materialization."

/-- The message of a dependency cycle across threads. -/
def crossThreadCycleMessage (key : MaterializationKey) : String :=
  match key.scope with
  | none =>
    "Registry::resolve: cross-thread dependency cycle detected during singleton materialization."
  | some _ =>
    "Registry::resolve: cross-thread dependency cycle detected during " ++
      "session bean materialization."

def cycleGuardMessage : String :=
  "Registry: dependency cycle detected during bean materialization."

def rootSessionMessage : String :=
  "Registry::resolve: session beans can only be resolved from a " ++
    "scoped context, not directly from a root context."

def scopeStoppedMessage : String :=
  "Registry::resolve: the scope is stopped; start the scope before resolving."

def scopeTeardownMessage : String :=
  "Registry::materializeSessionInstance: cannot materialize a new session bean " ++
    "during scope teardown."

def unrenewedBindingMessage : String :=
  "Registry::materializeSessionInstance: bound session bean has no " ++
    "instance for this scope cycle; call bindSession<T>() before start()."

/-! ## Accesses to the shared state -/

namespace State

/-- The stored instance of a key. -/
def findInstance (D : Descriptors) (s : State) (k : MaterializationKey) : Option Addr :=
  match k.scope with
  | none => s.singletons k.descId
  | some scope => s.sessions scope (D.sessionSlot k.descId)

/-- Store the instance of a key. -/
def storeInstance (D : Descriptors) (s : State) (k : MaterializationKey) (mem : Addr) : State :=
  let s := { s with stored := s.stored ++ [(k, mem)] }
  match k.scope with
  | none => { s with singletons := update s.singletons k.descId (some mem) }
  | some scope =>
    let slots := update (s.sessions scope) (D.sessionSlot k.descId) (some mem)
    { s with sessions := update s.sessions scope slots }

/-- Store the instance of a key after its construction, and nothing after an exception. -/
def storeResult (D : Descriptors) (s : State) (k : MaterializationKey) : Option Addr → State
  | some mem => s.storeInstance D k mem
  | none => s

/-- The thread that owns a key. -/
def ownerOf (s : State) (k : MaterializationKey) : Option ThreadToken :=
  (s.materializing.find? fun entry => entry.key = k).map (·.threadToken)

/-- Remove the entry of a key by overwriting it with the last entry. -/
def eraseEntry (s : State) (k : MaterializationKey) : State :=
  { s with materializing := swapRemove (fun entry => entry.key = k) s.materializing }

def setThread (s : State) (t : ThreadToken) (th : Thread) : State :=
  { s with threads := update s.threads t th }

def setWait (s : State) (t : ThreadToken) (w : MaterializationWait) : State :=
  { s with waitingByThread := update s.waitingByThread t w }

/-- Replace the resolves in progress of a thread. -/
def setFrames (s : State) (t : ThreadToken) (fs : List Frame) : State :=
  s.setThread t { s.threads t with frames := fs }

def hasMaterializationWaitSlot (s : State) (t : ThreadToken) : Bool :=
  t < s.waitingByThreadCapacity

/-- Grow the wait slots by whole chunks until the thread has one. -/
def ensureMaterializationWaitSlot (s : State) (t : ThreadToken) : State :=
  let requiredSlotCount := t + 1
  if requiredSlotCount ≤ s.waitingByThreadCapacity then s
  else
    let requiredChunkCount := (requiredSlotCount + kMaterializationWaitChunkSize - 1) /
      kMaterializationWaitChunkSize
    { s with waitingByThreadCapacity := requiredChunkCount * kMaterializationWaitChunkSize }

/-- The owner of the key that a thread waits for, as the cycle check reads it. -/
def awaitedOwner (s : State) (t : ThreadToken) : Option ThreadToken :=
  if t = kNoMaterializationThreadToken ∨ ¬ s.hasMaterializationWaitSlot t then none
  else if (s.waitingByThread t).active then s.ownerOf (s.waitingByThread t).key
  else none

/-- Follow owner, awaited key, owner, for as many threads as there are entries. -/
def materializationWaitCycleDetected (s : State)
    (currentThreadToken ownerThreadToken : ThreadToken) :
    Bool :=
  chase s.awaitedOwner currentThreadToken s.materializing.length ownerThreadToken

/-- The innermost resolve of the thread, `f`, ends with a result. -/
def finish (s : State) (t : ThreadToken) (f : Frame) (rest : List Frame)
    (key : Option MaterializationKey) (result : Except Failure Addr) : State :=
  { s.setFrames t rest with
    outcomes := s.outcomes ++
      [⟨t, key, result, f.entryStack, (s.threads t).materializationStack⟩] }

/-- Mark every thread blocked in `cv_.wait` as notified. -/
def notifyAll (s : State) : State :=
  { s with threads := fun t => { s.threads t with
      frames := match (s.threads t).frames with
        | ⟨.materialize k (.waiting _), e⟩ :: rest => ⟨.materialize k (.waiting true), e⟩ :: rest
        | fs => fs } }

end State

/-! ## The steps of a resolve -/

/-- A resolve of the descriptor `d` from a root context or from a scope: it opens
    a resolve of a key, or enters the `CycleGuard` of a prototype or of a
    thread-local bean that is not materialized yet, or throws. -/
def resolve (D : Descriptors) (s : State) (t : ThreadToken) (d : DescriptorId)
    (scope : Option ScopeId) : State :=
  let th := s.threads t
  let enter (call : Call) : Frame := ⟨call, th.materializationStack⟩
  let throw (e : Failure) : State :=
    { s with outcomes := s.outcomes ++
        [⟨t, none, .error e, th.materializationStack, th.materializationStack⟩] }
  match D.lifetime d with
  | .singleton =>
    s.setFrames t (enter (.materialize ⟨D.primaryOf d, none⟩ .find) :: th.frames)
  | .session =>
    match scope with
    | none => throw (.contextStateError rootSessionMessage)
    | some sc =>
      if D.scopeState sc = .stopped then throw (.contextStateError scopeStoppedMessage)
      else s.setFrames t (enter (.materialize ⟨D.primaryOf d, some sc⟩ .find) :: th.frames)
  | .prototype | .threadLocal =>
    if D.primaryOf d ∈ th.materializationStack then throw (.resolutionError cycleGuardMessage)
    else s.setThread t ⟨D.primaryOf d :: th.materializationStack,
      enter (.guarded (D.primaryOf d)) :: th.frames⟩

/-- The lock-free lookup, and the checks that a session bean makes after a miss. -/
def findFast (D : Descriptors) (s : State) (t : ThreadToken) (k : MaterializationKey)
    (e : List DescriptorId) (rest : List Frame) : State :=
  let f : Frame := ⟨.materialize k .find, e⟩
  match s.findInstance D k with
  | some a => s.finish t f rest k (.ok a)
  | none =>
    match k.scope with
    | none => s.setFrames t (⟨.materialize k .ensureSlot, e⟩ :: rest)
    | some sc =>
      if D.scopeState sc = .stopping then
        s.finish t f rest k (.error (.contextStateError scopeTeardownMessage))
      else if D.origin k.descId = .runtimeBinding then
        s.finish t f rest k (.error (.contextStateError unrenewedBindingMessage))
      else s.setFrames t (⟨.materialize k .ensureSlot, e⟩ :: rest)

/-- What one iteration of the claim loop decides. -/
inductive ClaimDecision
  | existing
  | claimed
  | intraThreadCycle
  | crossThreadCycle
  | wait
  deriving DecidableEq, Repr

/-- The decision of one iteration of the loop of `claimMaterializationOrWait`. -/
def claimDecision (D : Descriptors) (s : State) (t : ThreadToken) (k : MaterializationKey) :
    ClaimDecision :=
  let stack := (s.threads t).materializationStack
  if (s.findInstance D k).isSome then .existing
  else match s.ownerOf k with
    | none => if k.descId ∈ stack then .intraThreadCycle else .claimed
    | some owner =>
      if owner = t then .intraThreadCycle
      else if stack ≠ [] ∧ s.materializationWaitCycleDetected t owner then .crossThreadCycle
      else .wait

/-- One iteration of the loop of `claimMaterializationOrWait`, under the lock. -/
def claimIteration (D : Descriptors) (s : State) (t : ThreadToken) (k : MaterializationKey)
    (e : List DescriptorId) (rest : List Frame) : State :=
  let f : Frame := ⟨.materialize k .claim, e⟩
  match claimDecision D s t k with
  | .existing => s.setFrames t (⟨.materialize k .refind, e⟩ :: rest)
  | .claimed =>
    { s.setThread t ⟨k.descId :: (s.threads t).materializationStack,
        ⟨.materialize k .construct, e⟩ :: rest⟩ with
      materializing := s.materializing ++ [⟨k, t⟩] }
  | .intraThreadCycle =>
    s.finish t f rest k (.error (.resolutionError (intraThreadCycleMessage k)))
  | .crossThreadCycle =>
    s.finish t f rest k (.error (.resolutionError (crossThreadCycleMessage k)))
  | .wait =>
    (s.setWait t ⟨k, true⟩).setFrames t (⟨.materialize k (.waiting false), e⟩ :: rest)

/-- `claimMaterializationOrWait` from taking the lock: reset the wait slot, look
    for a cycle on the own stack, and run the first iteration of the loop. -/
def claimMaterializationOrWait (D : Descriptors) (s : State) (t : ThreadToken)
    (k : MaterializationKey) (e : List DescriptorId) (rest : List Frame) : State :=
  let s := s.setWait t {}
  if k.descId ∈ (s.threads t).materializationStack then
    s.finish t ⟨.materialize k .claim, e⟩ rest k
      (.error (.resolutionError (intraThreadCycleMessage k)))
  else claimIteration D s t k e rest

/-- Return from `cv_.wait` with the lock held: deactivate the wait edge and run
    the next iteration of the loop. -/
def wake (D : Descriptors) (s : State) (t : ThreadToken) (k : MaterializationKey)
    (e : List DescriptorId) (rest : List Frame) : State :=
  let s := s.setWait t { s.waitingByThread t with active := false }
  claimIteration D (s.setFrames t (⟨.materialize k .claim, e⟩ :: rest)) t k e rest

/-- Take the lock again after the construction: store the instance if there is
    one, remove the entry and pop the stack. -/
def release (D : Descriptors) (s : State) (t : ThreadToken) (k : MaterializationKey)
    (result : Option Addr) (e : List DescriptorId) (rest : List Frame) : State :=
  let s := s.storeResult D k result
  (s.eraseEntry k).setThread t ⟨(s.threads t).materializationStack.tail,
    ⟨.materialize k (.notify result), e⟩ :: rest⟩

/-- `cv_.notify_all`; then the lifecycle of a stored instance starts, or the
    exception of the constructor is thrown on. -/
def notify (s : State) (t : ThreadToken) (k : MaterializationKey) (result : Option Addr)
    (e : List DescriptorId) (rest : List Frame) : State :=
  let s := s.notifyAll
  match result with
  | some mem => s.setFrames t (⟨.materialize k (.lifecycle mem), e⟩ :: rest)
  | none => s.finish t ⟨.materialize k (.notify none), e⟩ rest k (.error .userException)

/-- What a thread can do; the outcomes of user code are part of the action. -/
inductive Act
  | resolve (d : DescriptorId) (scope : Option ScopeId)
  | find
  | ensureSlot
  | claim
  | wake
  | refind
  | construct (result : Option Addr)
  | release
  | notify
  | lifecycle (completed : Bool)
  | leaveGuard (result : Option Addr)
  deriving DecidableEq, Repr

/-- The thread that moves, and what it does. -/
structure Action where
  thread : ThreadToken
  act : Act
  deriving DecidableEq, Repr

/-- The result of a resolve that user code ended normally or by an exception. -/
def userResult : Option Addr → Except Failure Addr
  | some a => .ok a
  | none => .error .userException

/-- The step function. A construction of a bound singleton is never reached in the
    source (an assertion); it has no step. -/
def step (D : Descriptors) (s : State) (a : Action) : Option State :=
  let t := a.thread
  match a.act, (s.threads t).frames with
  | .resolve d scope, fs =>
    if t ≠ kNoMaterializationThreadToken ∧ userCode fs then some (resolve D s t d scope) else none
  | .find, ⟨.materialize k .find, e⟩ :: rest => some (findFast D s t k e rest)
  | .ensureSlot, ⟨.materialize k .ensureSlot, e⟩ :: rest =>
    some ((s.ensureMaterializationWaitSlot t).setFrames t (⟨.materialize k .claim, e⟩ :: rest))
  | .claim, ⟨.materialize k .claim, e⟩ :: rest => some (claimMaterializationOrWait D s t k e rest)
  | .wake, ⟨.materialize k (.waiting _), e⟩ :: rest => some (wake D s t k e rest)
  | .refind, ⟨.materialize k .refind, e⟩ :: rest =>
    (s.findInstance D k).map fun a => s.finish t ⟨.materialize k .refind, e⟩ rest k (.ok a)
  | .construct result, ⟨.materialize k .construct, e⟩ :: rest =>
    if D.origin k.descId = .runtimeBinding then none
    else some (s.setFrames t (⟨.materialize k ((result.map .store).getD .fail), e⟩ :: rest))
  | .release, ⟨.materialize k (.store mem), e⟩ :: rest => some (release D s t k (some mem) e rest)
  | .release, ⟨.materialize k .fail, e⟩ :: rest => some (release D s t k none e rest)
  | .notify, ⟨.materialize k (.notify result), e⟩ :: rest => some (notify s t k result e rest)
  | .lifecycle completed, ⟨.materialize k (.lifecycle mem), e⟩ :: rest =>
    some (s.finish t ⟨.materialize k (.lifecycle mem), e⟩ rest k
      (if completed then .ok mem else .error .userException))
  | .leaveGuard result, ⟨.guarded d, e⟩ :: rest =>
    let s := s.setThread t { s.threads t with
      materializationStack := (s.threads t).materializationStack.tail }
    some (s.finish t ⟨.guarded d, e⟩ rest none (userResult result))
  | _, _ => none

/-- Nothing is in flight; bound instances may be stored already. -/
def Init (s : State) : Prop :=
  s.materializing = [] ∧ (∀ t, (s.waitingByThread t).active = false) ∧
    (∀ t, s.threads t = {}) ∧ s.stored = [] ∧ s.outcomes = []

/-- The machine that interleaves the resolves of all threads. -/
def machine (D : Descriptors) : Machine State Action := ⟨Init, step D⟩

/-- The actions by which a thread resolves a key from scratch and claims it. -/
def claimActions (t : ThreadToken) (k : MaterializationKey) : List Action :=
  [⟨t, .resolve k.descId k.scope⟩, ⟨t, .find⟩, ⟨t, .ensureSlot⟩, ⟨t, .claim⟩]

/-! ## A small registry -/

/-- A registry whose descriptors are all singletons of their own. -/
def allSingletons : Descriptors where
  lifetime _ := .singleton
  origin _ := .annotatedType
  primaryDescriptor d := d
  sessionSlot _ := kInvalidSessionSlot
  scopeState _ := .stopped
  primaryOf_primaryOf d := by simp [DescriptorFields.primaryOf]
  lifetime_primaryOf _ := rfl
  sessionSlot_inj _ _ h := by cases h

/-- Nothing is stored and nothing in flight. -/
def emptyState : State where
  singletons _ := none
  sessions _ _ := none
  materializing := []
  waitingByThread _ := {}
  waitingByThreadCapacity := 0
  threads _ := {}
  stored := []
  outcomes := []

theorem emptyState_init : Init emptyState := ⟨rfl, fun _ => rfl, fun _ => rfl, rfl, rfl⟩

end Ctorium.Materialization
