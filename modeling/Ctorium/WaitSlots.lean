import Ctorium.Materialization
import Mathlib.Logic.Function.Basic

/-!
# Thread tokens and wait slots

A thread that materializes a bean gets a token, which is process-wide and recycled when
the thread exits, and a wait slot in every registry on which it materializes. The steps
follow `claimMaterializationOrWait` and `~TLCleanup`:

* the token is popped from the free list, or taken from a 32-bit counter;
* the registry is noted in the `TLCleanup` of the thread;
* `ensureMaterializationWaitSlot` copies the chunk pointers and allocates the missing
  chunks under `waitSlotsMutex_`, and swaps the longer list in under `writeLock_` too;
* under `writeLock_`, the thread resets its slot, and waits any number of times: it sets its
  wait edge, gives up the lock, and clears the edge when it wakes up;
* on exit, the thread clears its slots in the registries that it has noted and that are still
  there, and gives its token back. `push_back` may fail, then the token is lost.

What a thread does without giving up `writeLock_` is one step. Why a thread waits and what
wakes it is left open: any thread may wait for any key, and wake up at any time. A thread
that has no call on its stack may begin one, also while its thread-local beans are destroyed
(these hooks run before the slots are cleared). A thread inside a call on a registry that is
destroyed takes no further step.
-/

namespace Ctorium.WaitSlots

open Function
open Materialization (MaterializationKey MaterializationWait kMaterializationWaitChunkSize)

abbrev ThreadId := ℕ

/-- A registry, by the order of construction. -/
abbrev RegistryRef := ℕ

/-- A chunk of a registry, by the order of allocation. -/
abbrev ChunkId := ℕ

def kNoMaterializationThreadToken : UInt32 := 0

/-- The wait table of a registry. -/
structure Registry where
  /-- `waitingByThreadChunks_`. -/
  chunks : List ChunkId := []
  /-- `waitingByThreadCapacity_`. -/
  capacity : ℕ := 0
  /-- The number of chunks that were allocated. -/
  owned : ℕ := 0
  /-- What the chunks hold. -/
  cell : ChunkId → ℕ → MaterializationWait := fun _ _ => {}
  /-- The holder of `waitSlotsMutex_`. -/
  waitSlotsMutex : Option ThreadId := none

/-- Where a thread stands. -/
inductive Pc
  /-- In user code, or outside of every call. -/
  | idle
  /-- In `claimMaterializationOrWait`, with its token, about to note the registry. -/
  | noting (r : RegistryRef)
  /-- About to take `waitSlotsMutex_`. -/
  | ensuring (r : RegistryRef)
  /-- Holds `waitSlotsMutex_` and the longer list of chunks, about to take `writeLock_`. -/
  | growing (r : RegistryRef) (grown : List ChunkId)
  /-- `ensureMaterializationWaitSlot` has returned; about to take `writeLock_`. -/
  | ensured (r : RegistryRef)
  /-- In `cv_.wait`. -/
  | waiting (r : RegistryRef) (key : MaterializationKey)
  /-- In `~TLCleanup`, with the registries whose slots are still to be cleared. -/
  | exiting (rest : List RegistryRef)
  deriving DecidableEq

/-- A thread, with its `TLCleanup`. -/
structure Thread where
  token : UInt32 := kNoMaterializationThreadToken
  /-- The registries that the thread has noted, by their identifiers. -/
  registered : List (UInt32 × RegistryRef) := []
  pc : Pc := .idle
  deriving DecidableEq

/-- The process. -/
structure State where
  /-- The number of registries that were constructed. -/
  created : ℕ := 0
  /-- The registries that are still there. -/
  registries : RegistryRef → Option Registry := fun _ => none
  /-- `nextMaterializationThreadToken_`. -/
  nextToken : UInt32 := 0
  /-- `freeMaterializationThreadTokens_`, the back first. -/
  freeTokens : List UInt32 := []
  /-- The live threads. -/
  threads : ThreadId → Option Thread := fun _ => none

/-! ## Wait slots -/

namespace Registry

/-- The chunk of a slot and its place there. -/
def address (reg : Registry) (token : UInt32) : Option (ChunkId × ℕ) :=
  reg.chunks[token.toNat / kMaterializationWaitChunkSize]?.map fun chunk =>
    (chunk, token.toNat % kMaterializationWaitChunkSize)

/-- `hasMaterializationWaitSlot`. -/
def HasWaitSlot (reg : Registry) (token : UInt32) : Prop := token.toNat < reg.capacity

instance (reg : Registry) (token : UInt32) : Decidable (reg.HasWaitSlot token) :=
  inferInstanceAs (Decidable (_ < _))

/-- `materializationWaitSlot`, which asserts that the chunk is there. -/
def waitSlot (reg : Registry) (token : UInt32) : Option MaterializationWait :=
  (reg.address token).map fun a => reg.cell a.1 a.2

def setWaitSlot (reg : Registry) (token : UInt32) (wait : MaterializationWait) : Option Registry :=
  (reg.address token).map fun a =>
    { reg with cell := update reg.cell a.1 (update (reg.cell a.1) a.2 wait) }

/-- The number of chunks that a table with a slot for the token has. -/
def requiredChunkCount (token : UInt32) : ℕ :=
  (token.toNat + 1 + kMaterializationWaitChunkSize - 1) / kMaterializationWaitChunkSize

/-- The chunks, and new ones up to the number that the token needs. -/
def grown (reg : Registry) (token : UInt32) : List ChunkId :=
  reg.chunks ++ List.range' reg.owned (requiredChunkCount token - reg.chunks.length)

/-- The new chunks are allocated; the mutex is held. -/
def allocate (reg : Registry) (t : ThreadId) (token : UInt32) : Registry :=
  { reg with
    owned := reg.owned + (requiredChunkCount token - reg.chunks.length)
    waitSlotsMutex := some t }

/-- The longer list is swapped in, unless the table is large enough; the mutex is left. -/
def publish (reg : Registry) (token : UInt32) (grown : List ChunkId) : Registry :=
  if token.toNat + 1 ≤ reg.capacity then { reg with waitSlotsMutex := none }
  else { reg with
    chunks := grown
    capacity := grown.length * kMaterializationWaitChunkSize
    waitSlotsMutex := none }

end Registry

/-! ## Steps -/

namespace State

def setThread (s : State) (t : ThreadId) (th : Option Thread) : State :=
  { s with threads := update s.threads t th }

def setRegistry (s : State) (r : RegistryRef) (reg : Option Registry) : State :=
  { s with registries := update s.registries r reg }

end State

/-- `materializationThreadToken`: the token of the thread, or one that it gets now. -/
def materializationThreadToken (s : State) (th : Thread) : UInt32 × State :=
  if th.token ≠ kNoMaterializationThreadToken then (th.token, s)
  else match s.freeTokens with
    | token :: rest => (token, { s with freeTokens := rest })
    | [] => (s.nextToken + 1, { s with nextToken := s.nextToken + 1 })

/-- `clearMaterializationWaitSlot`, on a registry that may be gone. -/
def clearMaterializationWaitSlot (s : State) (token : UInt32) (r : RegistryRef) : Option State :=
  match s.registries r with
  | none => some s
  | some reg =>
    if token ≠ kNoMaterializationThreadToken ∧ reg.HasWaitSlot token then
      (reg.setWaitSlot token {}).map fun reg' => s.setRegistry r (some reg')
    else some s

inductive Action
  | construct
  | destroy (r : RegistryRef)
  /-- A thread is created. -/
  | start (t : ThreadId)
  /-- A thread enters `claimMaterializationOrWait`. -/
  | enter (t : ThreadId) (r : RegistryRef)
  /-- It notes the registry; without memory it leaves the call. -/
  | note (t : ThreadId) (memory : Bool)
  /-- It takes `waitSlotsMutex_`; without memory for a longer list it leaves the call. -/
  | ensure (t : ThreadId) (memory : Bool)
  /-- It swaps the longer list in. -/
  | publish (t : ThreadId)
  /-- It resets its slot, and leaves the call or starts to wait. -/
  | claim (t : ThreadId) (wait : Option MaterializationKey)
  /-- It wakes up, and leaves the call or waits again. -/
  | wake (t : ThreadId) (again : Bool)
  /-- It exits; the order is the one in which the noted registries are visited. -/
  | exit (t : ThreadId) (order : List RegistryRef)
  /-- It clears its slot in the next registry. -/
  | clear (t : ThreadId)
  /-- It gives its token back and is gone; without memory the token is lost. -/
  | recycle (t : ThreadId) (memory : Bool)
  deriving DecidableEq

/-- A step of a thread on a registry that is still there. -/
def threadStep (registryId : RegistryRef → UInt32) (s : State) (t : ThreadId) (th : Thread) :
    Action → Option State
  | .enter _ r =>
    if th.pc = .idle ∧ (s.registries r).isSome then
      let (token, s') := materializationThreadToken s th
      some (s'.setThread t (some { th with token := token, pc := .noting r }))
    else none
  | .note _ memory =>
    match th.pc with
    | .noting r =>
      if (th.registered.lookup (registryId r)).isSome then
        some (s.setThread t (some { th with pc := .ensuring r }))
      else if memory then
        some (s.setThread t (some { th with
          registered := th.registered ++ [(registryId r, r)], pc := .ensuring r }))
      else some (s.setThread t (some { th with pc := .idle }))
    | _ => none
  | .ensure _ memory =>
    match th.pc with
    | .ensuring r => (s.registries r).bind fun reg =>
      if reg.waitSlotsMutex ≠ none then none
      else if th.token.toNat + 1 ≤ reg.capacity then
        some (s.setThread t (some { th with pc := .ensured r }))
      else if memory then
        some ((s.setRegistry r (some (reg.allocate t th.token))).setThread t
          (some { th with pc := .growing r (reg.grown th.token) }))
      else some (s.setThread t (some { th with pc := .idle }))
    | _ => none
  | .publish _ =>
    match th.pc with
    | .growing r grown => (s.registries r).map fun reg =>
      (s.setRegistry r (some (reg.publish th.token grown))).setThread t
        (some { th with pc := .ensured r })
    | _ => none
  | .claim _ wait =>
    match th.pc with
    | .ensured r => (s.registries r).bind fun reg =>
      match wait with
      | none => (reg.setWaitSlot th.token {}).map fun reg' =>
        (s.setRegistry r (some reg')).setThread t (some { th with pc := .idle })
      | some key => (reg.setWaitSlot th.token ⟨key, true⟩).map fun reg' =>
        (s.setRegistry r (some reg')).setThread t (some { th with pc := .waiting r key })
    | _ => none
  | .wake _ again =>
    match th.pc with
    | .waiting r key => (s.registries r).bind fun reg => (reg.waitSlot th.token).bind fun wait =>
      if again then
        (reg.setWaitSlot th.token ⟨key, true⟩).map fun reg' => s.setRegistry r (some reg')
      else
        (reg.setWaitSlot th.token { wait with active := false }).map fun reg' =>
          (s.setRegistry r (some reg')).setThread t (some { th with pc := .idle })
    | _ => none
  | .exit _ order =>
    if th.pc = .idle ∧ order.Perm (th.registered.map Prod.snd) then
      some (s.setThread t (some { th with pc := .exiting order }))
    else none
  | .clear _ =>
    match th.pc with
    | .exiting (r :: rest) => (clearMaterializationWaitSlot s th.token r).map fun s' =>
      s'.setThread t (some { th with pc := .exiting rest })
    | _ => none
  | .recycle _ memory =>
    match th.pc with
    | .exiting [] =>
      some ({ s with freeTokens :=
        if th.token ≠ kNoMaterializationThreadToken ∧ memory then th.token :: s.freeTokens
        else s.freeTokens }.setThread t none)
    | _ => none
  | _ => none

/-- The thread that takes a step. -/
def Action.thread? : Action → Option ThreadId
  | .construct | .destroy _ | .start _ => none
  | .enter t _ | .note t _ | .ensure t _ | .publish t | .claim t _ | .wake t _ | .exit t _
  | .clear t | .recycle t _ => some t

/-- A step of the process. -/
def step (registryId : RegistryRef → UInt32) (s : State) (a : Action) : Option State :=
  match a with
  | .construct =>
    some { s.setRegistry s.created (some {}) with created := s.created + 1 }
  | .destroy r => some (s.setRegistry r none)
  | .start t => if s.threads t = none then some (s.setThread t (some {})) else none
  | a => a.thread?.bind fun t => (s.threads t).bind fun th => threadStep registryId s t th a

/-- The machine that interleaves the steps of all threads. -/
def machine (registryId : RegistryRef → UInt32) : Machine State Action :=
  ⟨fun s => s = {}, step registryId⟩

end Ctorium.WaitSlots
