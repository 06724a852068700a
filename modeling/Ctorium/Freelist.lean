import Ctorium.Lib.Linked
import Ctorium.Lib.Machine
import Mathlib.Logic.Function.Basic

/-!
# The freelist of prototype slots

`PrototypeStore` keeps its free slots on a Treiber stack. The head is one atomic
word, a generation and a slot; each slot has an atomic successor. The threads run

* `allocate`: load the head, load the successor of its slot, compare-and-swap the
  head to the successor; grow the store if the list is empty;
* `reclaim` (a construction has thrown) and `reclaimSlot` (the last handle is
  gone): load the head, store it as the successor of the slot, compare-and-swap
  the head to the slot.

Every atomic access is one step, and a weak compare-and-swap may fail for no
reason. The word that a pop installs is the successor alone, with generation 0;
the word that a push installs has the generation of the slot, which only
`reclaimSlot` advances.

`version` counts the changes of the head and is read by no step.
-/

namespace Ctorium.Freelist

open Function

abbrev SlotId := ℕ
abbrev ThreadId := ℕ

/-- The head word `(generation << 32) | slot`; the slot `kInvalidSlotId` is `none`. -/
structure Head where
  generation : UInt32
  slot : Option SlotId
  deriving DecidableEq, Repr

/-- Where a thread stands inside an operation on the freelist. -/
inductive Pc
  | idle
  /-- A pop has loaded the head word, when the head had this version. -/
  | popNext (generation : UInt32) (slot : SlotId) (seen : ℕ)
  /-- A pop has loaded the successor too and is about to swap. -/
  | popCas (generation : UInt32) (slot : SlotId) (next : Option SlotId) (seen : ℕ)
  /-- A pop has found the list empty. -/
  | grow
  /-- A push is about to load the head. -/
  | pushLoad (slot : SlotId) (generation : UInt32)
  /-- A push has loaded the head and is about to store the successor. -/
  | pushStore (slot : SlotId) (generation : UInt32) (current : Head)
  /-- A push has stored the successor and is about to swap. -/
  | pushCas (slot : SlotId) (generation : UInt32) (current : Head)
  deriving DecidableEq, Repr

/-- A thread: the slots it has allocated and not yet activated, and its operation. -/
structure Thread where
  owned : List SlotId := []
  pc : Pc := .idle
  deriving DecidableEq, Repr

/-- The store and its threads. -/
structure State where
  /-- `freelistHead_`. -/
  head : Head
  nextFree : SlotId → Option SlotId
  generation : SlotId → UInt32
  slotCount : ℕ
  /-- The slots whose object is alive, owned by its handles. -/
  live : List SlotId
  threads : ThreadId → Thread
  /-- The number of changes of the head (history). -/
  version : ℕ

def kChunkSize : ℕ := 256
def kMaxChunks : ℕ := 256

/-- An empty store. The successors of fresh slots are 0. -/
def initial : State where
  head := ⟨0, none⟩
  nextFree _ := some 0
  generation _ := 0
  slotCount := 0
  live := []
  threads _ := {}
  version := 0

namespace State

def setThread (s : State) (t : ThreadId) (th : Thread) : State :=
  { s with threads := update s.threads t th }

def setPc (s : State) (t : ThreadId) (pc : Pc) : State :=
  s.setThread t { s.threads t with pc := pc }

/-- A pop has the head in its hand: it goes for the successor, or grows the store. -/
def popLoop (s : State) (t : ThreadId) : State :=
  match s.head.slot with
  | none => s.setPc t .grow
  | some slot => s.setPc t (.popNext s.head.generation slot s.version)

/-- The compare-and-swap of a pop: on success the thread owns the slot. -/
def popCas (s : State) (t : ThreadId) (generation : UInt32) (slot : SlotId)
    (next : Option SlotId) (spurious : Bool) : State :=
  if s.head = ⟨generation, some slot⟩ ∧ spurious = false then
    { s.setThread t ⟨slot :: (s.threads t).owned, .idle⟩ with
      head := ⟨0, next⟩, version := s.version + 1 }
  else s.popLoop t

/-- The compare-and-swap of a push. -/
def pushCas (s : State) (t : ThreadId) (slot : SlotId) (generation : UInt32) (current : Head)
    (spurious : Bool) : State :=
  if s.head = current ∧ spurious = false then
    { s.setPc t .idle with head := ⟨generation, some slot⟩, version := s.version + 1 }
  else s.setPc t (.pushStore slot generation s.head)

/-- The growth of the store, under `growMutex_`. -/
def grow (s : State) (t : ThreadId) : State :=
  { s.setThread t ⟨s.slotCount :: (s.threads t).owned, .idle⟩ with slotCount := s.slotCount + 1 }

/-- A thread gives up a slot that it owns and starts to push it, without a new generation. -/
def reclaim (s : State) (t : ThreadId) (slot : SlotId) : State :=
  s.setThread t ⟨(s.threads t).owned.erase slot, .pushLoad slot (s.generation slot)⟩

/-- The last handle of a live slot is gone: a thread advances the generation and
    starts to push the slot. -/
def reclaimSlot (s : State) (t : ThreadId) (slot : SlotId) : State :=
  let generation := s.generation slot + 1
  { s.setPc t (.pushLoad slot generation) with
    generation := update s.generation slot generation, live := s.live.erase slot }

/-- The object in a slot is complete: the slot belongs to its handles. -/
def activate (s : State) (t : ThreadId) (slot : SlotId) : State :=
  { s.setThread t { s.threads t with owned := (s.threads t).owned.erase slot } with
    live := slot :: s.live }

end State

/-- What a thread can do: start an operation, or take the next step of the one it is in. -/
inductive Act
  | allocate
  | reclaim (slot : SlotId)
  | reclaimSlot (slot : SlotId)
  | activate (slot : SlotId)
  | advance (spurious : Bool)
  deriving DecidableEq, Repr

structure Action where
  thread : ThreadId
  act : Act
  deriving DecidableEq, Repr

/-- One atomic step. A slot is released only by its owner, and the store has at
    most `kMaxChunks` chunks (an assertion of the source). -/
def step (s : State) (a : Action) : Option State :=
  let t := a.thread
  match a.act, (s.threads t).pc with
  | .allocate, .idle => some (s.popLoop t)
  | .reclaim slot, .idle => if slot ∈ (s.threads t).owned then some (s.reclaim t slot) else none
  | .reclaimSlot slot, .idle => if slot ∈ s.live then some (s.reclaimSlot t slot) else none
  | .activate slot, .idle => if slot ∈ (s.threads t).owned then some (s.activate t slot) else none
  | .advance _, .popNext g slot seen => some (s.setPc t (.popCas g slot (s.nextFree slot) seen))
  | .advance spurious, .popCas g slot next _ => some (s.popCas t g slot next spurious)
  | .advance _, .grow => if s.slotCount / kChunkSize < kMaxChunks then some (s.grow t) else none
  | .advance _, .pushLoad slot g => some (s.setPc t (.pushStore slot g s.head))
  | .advance _, .pushStore slot g current =>
    some { s.setPc t (.pushCas slot g current) with
      nextFree := update s.nextFree slot current.slot }
  | .advance spurious, .pushCas slot g current => some (s.pushCas t slot g current spurious)
  | _, _ => none

/-- The machine that interleaves the operations of all threads. -/
def machine : Machine State Action := ⟨fun s => s = initial, step⟩

end Ctorium.Freelist
