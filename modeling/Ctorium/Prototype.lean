import Ctorium.Basic
import Ctorium.Lib.Machine
import Ctorium.Lib.Worklist
import Mathlib.Algebra.BigOperators.Group.Finset.Basic
import Mathlib.Algebra.GroupWithZero.Nat
import Mathlib.Logic.Function.Basic

/-!
# Handles to prototype beans

A `Bean` or `AnyBean` handle lies in a *cell*: a variable of the user, or a member
of a bean. A handle in direct form with a slot tracks a prototype: the slot in the
`PrototypeStore` counts such handles, and the last one to go destroys the bean,
with the handles stored in it, and so on. `Bean` and `AnyBean` have the same
layout and the same operations.

* `Materialization` of a prototype allocates a slot, constructs the bean and
  activates the slot (in this order, or the constructor runs first). The
  constructor is user code: the handles that it makes are cells of their own,
  which become members of the bean when it is activated. If the constructor
  throws, the slot is reclaimed; if a hook or listener throws later, there is
  no handle, and the slot stays as it is.
* A release that finds the count at `1` takes the object out of the slot, runs it
  through `executeDestructionLifecycle`, and reclaims the slot. The destructor of
  the object destroys its members from the last one to the first.
* The assignments release the destination first, and read the source after that.

The store is alive (the registry is started). Hooks and listeners of a
destruction do not operate on handles.
-/

namespace Ctorium.Prototype

open Function

abbrev SlotId := ℕ
abbrev CellId := ℕ

/-- A bean object, which has an identity besides its address. -/
abbrev ObjectId := ℕ

/-- The "no slot" sentinel of handles to beans that are not prototypes. -/
def kInvalidSlotId : SlotId := 2 ^ 32 - 1

/-- `kMaxChunks` chunks of `kChunkSize` slots. -/
def kMaxSlots : ℕ := 256 * 256

/-- The fields of `Bean` and `AnyBean`; the default is the empty or moved-from handle. -/
structure Handle where
  /-- `object_`, the object that it points into. -/
  object : Option ObjectId := none
  /-- The low word of `bits_`: the slot, or the scope name of a proxy. -/
  slot : SlotId := 0
  descId : DescriptorId := 0
  deriving DecidableEq, Repr

/-- The guard before `retainIfPrototype` and `releaseIfPrototype`: the handle tracks
    a prototype. -/
def Handle.isPrototype (h : Handle) : Bool := h.slot ≠ kInvalidSlotId && h.object.isSome

/-- A place for a handle. -/
structure Cell where
  handle : Handle := {}
  /-- The bean that it is a member of. -/
  owner : Option ObjectId := none
  /-- The handle is constructed and not destroyed. -/
  alive : Bool := false

/-- A slot of the `PrototypeStore`. -/
structure Slot where
  /-- A 32-bit counter. -/
  refcount : ℕ := 0
  memory : Option ObjectId := none
  descId : DescriptorId := 0

inductive ObjectState
  /-- Not constructed, or its constructor threw. -/
  | absent
  /-- It has a slot, and its constructor runs. -/
  | reserved
  | active
  | destroyed
  deriving DecidableEq, Repr

structure Object where
  state : ObjectState := .absent
  /-- The handles stored in it, in the order of their construction. -/
  members : List CellId := []

structure State where
  cells : CellId → Cell := fun _ => {}
  nextCell : CellId := 0
  slots : SlotId → Slot := fun _ => {}
  slotCount : ℕ := 0
  freelist : List SlotId := []
  objects : ObjectId → Object := fun _ => {}
  nextObject : ObjectId := 0
  /-- The runs of `executeDestructionLifecycle`, the latest one first. -/
  lifecycles : List ObjectId := []
  /-- A destroyed handle has been read or written. -/
  dangling : Bool := false

namespace State

/-! ## Cells -/

def setHandle (s : State) (c : CellId) (h : Handle) : State :=
  { s with cells := update s.cells c { s.cells c with handle := h } }

/-- A new handle in a new cell, which may be a member of a bean. -/
def newCell (s : State) (h : Handle) (owner : Option ObjectId) : State :=
  { s with
    cells := update s.cells s.nextCell ⟨h, owner, true⟩
    nextCell := s.nextCell + 1
    objects := match owner with
      | none => s.objects
      | some o => update s.objects o
        { s.objects o with members := (s.objects o).members ++ [s.nextCell] } }

/-- The cells of a new handle: variables, and members of beans that are there. -/
def ownerOk (s : State) : Option ObjectId → Bool
  | none => true
  | some o => (s.objects o).state = .active

/-! ## The store -/

/-- `PrototypeStore::allocate`: a slot of the free list, or else a new one. -/
def allocateSlot (s : State) : SlotId × State :=
  match s.freelist with
  | i :: rest => (i, { s with freelist := rest })
  | [] => (s.slotCount, { s with slotCount := s.slotCount + 1 })

def setSlot (s : State) (i : SlotId) (sl : Slot) : State :=
  { s with slots := update s.slots i sl }

/-- `PrototypeStore::retain`. -/
def retain (s : State) (i : SlotId) : State :=
  s.setSlot i { s.slots i with refcount := ((s.slots i).refcount + 1) % 2 ^ 32 }

/-- `retainIfPrototype` with its guard. -/
def retainIfPrototype (s : State) (h : Handle) : State :=
  if h.isPrototype then s.retain h.slot else s

/-- `reclaimSlot`, and `reclaim` of a slot that was never activated. -/
def reclaimSlot (s : State) (i : SlotId) : State :=
  { s.setSlot i { s.slots i with memory := none } with freelist := i :: s.freelist }

/-- What is left of a release. -/
inductive Work
  /-- The destructor of a handle. -/
  | destroyCell (c : CellId)
  | reclaimSlot (i : SlotId)
  deriving DecidableEq, Repr

/-- `releaseIfPrototype` without its guard: `releaseAcquire`, and for the last handle
    `releasePrototypeLast`, which leaves the members and the slot. -/
def release (s : State) (i : SlotId) : State × List Work :=
  let sl := s.slots i
  let s' := s.setSlot i { sl with refcount := (sl.refcount + (2 ^ 32 - 1)) % 2 ^ 32 }
  if sl.refcount = 1 then
    match sl.memory with
    | none => (s', [.reclaimSlot i])
    | some o =>
      ({ s'.setSlot i { s'.slots i with memory := none } with
          objects := update s.objects o { s.objects o with state := .destroyed }
          lifecycles := o :: s.lifecycles },
        (s.objects o).members.reverse.map .destroyCell ++ [.reclaimSlot i])
  else (s', [])

def perform (s : State) : Work → State × List Work
  | .destroyCell c =>
    let s' := { s with cells := update s.cells c { s.cells c with alive := false } }
    let h := (s.cells c).handle
    if h.isPrototype then s'.release h.slot else (s', [])
  | .reclaimSlot i => (s.reclaimSlot i, [])

def Work.weight : Work → ℕ
  | .destroyCell _ => 2
  | .reclaimSlot _ => 1

/-- What the destruction of an object may leave to do. -/
def Object.weight (ob : Object) : ℕ :=
  if ob.state = .active then 2 * ob.members.length + 2 else 0

/-- A bound on the items of work that a worklist leads to. -/
def workBound (s : State) (ws : List Work) : ℕ :=
  (ws.map Work.weight).sum + ∑ o ∈ Finset.range s.nextObject, Object.weight (s.objects o)

/-- A release with all that follows from it. -/
def drain (s : State) (ws : List Work) : State :=
  Worklist.drain perform (s.workBound ws + 1) ws s

/-- `releaseIfPrototype` with its guard. -/
def releaseIfPrototype (s : State) (h : Handle) : State :=
  if h.isPrototype then (s.release h.slot).1.drain (s.release h.slot).2 else s

/-! ## The operations on handles -/

/-- The copy constructor. -/
def copy (s : State) (c : CellId) (owner : Option ObjectId) : State :=
  (s.newCell (s.cells c).handle owner).retainIfPrototype (s.cells c).handle

/-- The move constructor. -/
def move (s : State) (c : CellId) (owner : Option ObjectId) : State :=
  (s.newCell (s.cells c).handle owner).setHandle c {}

/-- The copy assignment `d = c`. -/
def copyAssign (s : State) (d c : CellId) : State :=
  if d = c then s
  else
    let s' := s.releaseIfPrototype (s.cells d).handle
    let h := (s'.cells c).handle
    { (s'.setHandle d h).retainIfPrototype h with
      dangling := s'.dangling || !(s'.cells c).alive || !(s'.cells d).alive }

/-- The move assignment `d = std::move(c)`. -/
def moveAssign (s : State) (d c : CellId) : State :=
  if d = c then s
  else
    let s' := s.releaseIfPrototype (s.cells d).handle
    let h := (s'.cells c).handle
    { (s'.setHandle d h).setHandle c {} with
      dangling := s'.dangling || !(s'.cells c).alive || !(s'.cells d).alive }

/-- The result of a cast to a type that the bean is known under, with the
    descriptor for it. A proxy stays a proxy. The pointer is adjusted within its object. -/
def castHandle (h : Handle) (target : DescriptorId) : Handle := { h with descId := target }

/-- `cast` and `tryCast`; without a target the one throws and the other returns nothing. -/
def cast (s : State) (c : CellId) (target : Option DescriptorId) (owner : Option ObjectId) :
    State :=
  match target with
  | none => s
  | some d =>
    let h := castHandle (s.cells c).handle d
    (s.newCell h owner).retainIfPrototype h

/-- The destructor of a handle. A member is taken out of its bean first. -/
def destroy (s : State) (c : CellId) : State :=
  let objects := match (s.cells c).owner with
    | none => s.objects
    | some o => update s.objects o
      { s.objects o with members := (s.objects o).members.filter (· ≠ c) }
  { s with objects := objects }.drain [.destroyCell c]

/-! ## The materialization of a prototype -/

/-- A slot for a bean that is to be constructed or, where the constructor
    allocates the bean itself, has just been. -/
def allocate (s : State) (d : DescriptorId) : State :=
  let (i, s') := s.allocateSlot
  { s'.setSlot i { s'.slots i with memory := some s.nextObject, descId := d } with
    objects := update s.objects s.nextObject { state := .reserved }
    nextObject := s.nextObject + 1 }

/-- The constructor threw. -/
def abandon (s : State) (i : SlotId) (o : ObjectId) : State :=
  { s.reclaimSlot i with objects := update s.objects o {} }

/-- The slot becomes live, and the bean has the handles made by its constructor.
    If the hooks and listeners that follow return, there is a first handle. -/
def activate (s : State) (i : SlotId) (o : ObjectId) (members : List CellId) (returned : Bool) :
    State :=
  let s' : State := { s.setSlot i { s.slots i with refcount := 1 } with
    cells := fun c => if c ∈ members then { s.cells c with owner := some o } else s.cells c
    objects := update s.objects o ⟨.active, members⟩ }
  if returned then s'.newCell ⟨some o, i, (s.slots i).descId⟩ none else s'

end State

inductive Action
  | allocate (d : DescriptorId)
  | abandon (i : SlotId)
  | activate (i : SlotId) (members : List CellId) (returned : Bool)
  /-- An empty handle, or one to a bean that is not a prototype. -/
  | construct (h : Handle) (owner : Option ObjectId)
  | copy (c : CellId) (owner : Option ObjectId)
  | move (c : CellId) (owner : Option ObjectId)
  | copyAssign (d c : CellId)
  | moveAssign (d c : CellId)
  | cast (c : CellId) (target : Option DescriptorId) (owner : Option ObjectId)
  | destroy (c : CellId)
  deriving DecidableEq, Repr

namespace State

/-- The object whose constructor runs for the slot. -/
def reservedAt (s : State) (i : SlotId) : Option ObjectId :=
  (s.slots i).memory.filter fun o => (s.objects o).state = .reserved

/-- The cells are variables. -/
def areVariables (s : State) (cs : List CellId) : Bool :=
  cs.all fun c => (s.cells c).alive && (s.cells c).owner.isNone

/-- The state after an operation on operands that exist. -/
def step (s : State) : Action → Option State
  | .allocate d =>
    if s.freelist ≠ [] ∨ s.slotCount < kMaxSlots then some (s.allocate d) else none
  | .abandon i => (s.reservedAt i).map (s.abandon i)
  | .activate i members returned =>
    if members.Nodup ∧ s.areVariables members then
      (s.reservedAt i).map fun o => s.activate i o members returned
    else none
  | .construct h owner =>
    if !h.isPrototype ∧ s.ownerOk owner then some (s.newCell h owner) else none
  | .copy c owner => if (s.cells c).alive ∧ s.ownerOk owner then some (s.copy c owner) else none
  | .move c owner => if (s.cells c).alive ∧ s.ownerOk owner then some (s.move c owner) else none
  | .copyAssign d c =>
    if (s.cells d).alive ∧ (s.cells c).alive then some (s.copyAssign d c) else none
  | .moveAssign d c =>
    if (s.cells d).alive ∧ (s.cells c).alive then some (s.moveAssign d c) else none
  | .cast c target owner =>
    if (s.cells c).alive ∧ s.ownerOk owner then some (s.cast c target owner) else none
  | .destroy c => if (s.cells c).alive then some (s.destroy c) else none

end State

/-- All sequences of operations. -/
def machine : Machine State Action where
  Init s := s = {}
  step := State.step

end Ctorium.Prototype
