import Ctorium.Prototype
import Ctorium.Lib.Attempt

/-!
# Failed resolutions of prototypes

`materializeOneImpl` creates a prototype in the steps of `Registry.materialize`: a
`CycleGuard`, a slot and the object (in the order of its kind of product), the activation
of the slot, and the hooks and listeners of the creation with a handle of their own. An
exception leaves through the handler of the constructor and through the destructors of
the handle and of the guard.

* `no_trace_iff`: a resolution that fails leaves no trace exactly if it fails before the
  object is constructed, and its constructor or producer leaves none.
* `Registry.resolution`: resolutions are user code for other resolutions, whose
  constructors call them.
-/

namespace Ctorium.Unwinding

open Function Prototype

inductive Raised
  | failure (e : Failure)
  | badAlloc
  deriving DecidableEq, Repr

/-! ## The store -/

structure State where
  slots : SlotId → Slot := fun _ => {}
  slotCount : ℕ := 0
  freelist : List SlotId := []
  liveSlotCount : ℕ := 0
  /-- `materializationStack`, the latest entry first. -/
  stack : List DescriptorId := []
  nextObject : ObjectId := 0
  /-- The slots that resolutions under way have taken, with the number of references that
      they hold. No step reads it. -/
  taken : SlotId → Option ℕ := fun _ => none

/-- What the platform does: the limit `CTORIUM_PROTOTYPE_MAX_SLOTS`, and allocations of
    memory that fail. -/
structure Platform where
  maxSlots : Option ℕ := none
  newFails : Bool := false
  /-- The chunk for the slot is not there, and cannot be allocated. -/
  chunkFails : SlotId → Bool := fun _ => false

namespace State

variable (s : State)

def setSlot (i : SlotId) (sl : Slot) : State := { s with slots := update s.slots i sl }

def take (i : SlotId) (references : Option ℕ) : State :=
  { s with taken := update s.taken i references }

/-- The slot that `allocate` returns. -/
def nextSlot : SlotId := s.freelist.headD s.slotCount

/-- `PrototypeStore::allocate`. -/
def allocate (P : Platform) (d : DescriptorId) (mem : Option ObjectId) : Attempt Raised State :=
  let assigned :=
    (s.setSlot s.nextSlot { s.slots s.nextSlot with memory := mem, descId := d }).take s.nextSlot
      (some 0)
  match s.freelist with
  | _ :: rest => .ok { assigned with freelist := rest }
  | [] =>
    if P.maxSlots.any (· ≤ s.slotCount) then
      .fail s (.failure (.resolutionError ("PrototypeStore: CTORIUM_PROTOTYPE_MAX_SLOTS limit " ++
        "reached; cannot allocate a new prototype slot.")))
    else if P.chunkFails s.slotCount then .fail { s with slotCount := s.slotCount + 1 } .badAlloc
    else .ok { assigned with slotCount := s.slotCount + 1 }

/-- `PrototypeStore::activate`. -/
def activate (i : SlotId) : State :=
  { (s.setSlot i { s.slots i with refcount := 1 }).take i (some 1) with
    liveSlotCount := s.liveSlotCount + 1 }

/-- `PrototypeStore::reclaim`. -/
def reclaim (i : SlotId) : State :=
  { (s.setSlot i { s.slots i with memory := none }).take i none with
    freelist := i :: s.freelist }

/-- `PrototypeStore::reclaimSlot`. -/
def reclaimSlot (i : SlotId) : State :=
  { s.reclaim i with liveSlotCount := s.liveSlotCount - 1 }

/-- `PrototypeStore::retain`. -/
def retain (i : SlotId) : State :=
  (s.setSlot i { s.slots i with refcount := ((s.slots i).refcount + 1) % 2 ^ 32 }).take i
    ((s.taken i).map (· + 1))

/-- `PrototypeStore::releaseAcquire`. -/
def releaseAcquire (i : SlotId) : State :=
  (s.setSlot i { s.slots i with refcount := ((s.slots i).refcount + (2 ^ 32 - 1)) % 2 ^ 32 }).take i
    ((s.taken i).map (· - 1))

def isLive (i : SlotId) : Bool := (s.slots i).refcount ≠ 0

/-- The slots that the resolutions under way have taken are not free, and count the
    references that these hold. Counts are 32-bit numbers. -/
structure Sound : Prop where
  held : ∀ i n, s.taken i = some n → n ≤ (s.slots i).refcount
  notFree : ∀ i n, s.taken i = some n → i ∉ s.freelist ∧ i < s.slotCount
  refcount_lt : ∀ i, (s.slots i).refcount < 2 ^ 32
  freelist_lt : ∀ i ∈ s.freelist, i < s.slotCount
  freelist_nodup : s.freelist.Nodup

/-- What user code does to the resolutions under way: nothing. -/
structure Keeps (s t : State) : Prop where
  stack : t.stack = s.stack
  taken : t.taken = s.taken
  sound : t.Sound

end State

/-- User code: a constructor or producer with the injection of its parameters, a hook, or
    the listeners of an event. It may resolve beans and work on the handles that it has. -/
structure Callback where
  run : State → Attempt Raised State
  keeps : ∀ s : State, s.Sound → s.Keeps (run s).state

/-! ## The data of a registry -/

structure DescriptorCold where
  construct : Callback
  /-- For products that are returned as `unique_ptr`. -/
  allocAndConstruct : Option Callback := none
  postConstruct : Option Callback := none
  /-- The hooks, listeners and destructor of `executeDestructionLifecycle`. -/
  destruction : Callback

structure Registry where
  cold : DescriptorId → DescriptorCold
  primaryDescriptor : DescriptorId → DescriptorId
  /-- The dispatch of `onInitialized` for a descriptor, if there are listeners. -/
  initialized : Option (DescriptorId → Callback) := none
  created : Option (DescriptorId → Callback) := none

/-- What happens to the object and its memory. -/
inductive ObjectEvent
  | allocated
  | constructed
  | destroyed
  | deallocated
  deriving DecidableEq, Repr

/-! ## A resolution -/

/-- The local variables of `materializeOneImpl`, with what has happened to the object. -/
structure Frame where
  state : State
  slotId : SlotId := kInvalidSlotId
  mem : Option ObjectId := none
  trace : List ObjectEvent := []

namespace Frame

variable (f : Frame)

def note (e : ObjectEvent) : Frame := { f with trace := f.trace ++ [e] }

def call (c : Callback) : Attempt Raised Frame :=
  ⟨{ f with state := (c.run f.state).state }, (c.run f.state).failure⟩

/-- The call of a function pointer that may be null. -/
def callIfSet : Option Callback → Attempt Raised Frame
  | none => .ok f
  | some c => f.call c

/-- Memory for the object. -/
def newObject : Frame :=
  { f with
    mem := some f.state.nextObject
    state := { f.state with nextObject := f.state.nextObject + 1 } }.note .allocated

/-- `::operator new`. -/
def operatorNew (P : Platform) : Attempt Raised Frame :=
  if P.newFails then .fail f .badAlloc else .ok f.newObject

def allocateSlot (P : Platform) (d : DescriptorId) : Attempt Raised Frame :=
  let a := f.state.allocate P d f.mem
  ⟨{ f with state := a.state, slotId := f.state.nextSlot }, a.failure⟩

/-- The handler of the constructor: `::operator delete` and `reclaim`. -/
def abandon : Frame :=
  { f with state := f.state.reclaim f.slotId }.note .deallocated

/-- The object and its slot: a product that is returned as `unique_ptr` has its object
    before the slot, any other one is constructed with the slot there. -/
def construct (P : Platform) (d : DescriptorId) (cold : DescriptorCold) : Attempt Raised Frame :=
  match cold.allocAndConstruct with
  | some producer =>
    ((f.call producer).andThen fun f => .ok (f.newObject.note .constructed)).andThen fun f =>
      f.allocateSlot P d
  | none =>
    ((f.operatorNew P).andThen fun f => f.allocateSlot P d).andThen fun f =>
      ((f.call cold.construct).andThen fun f => .ok (f.note .constructed)).rethrow abandon

def activate : Frame := { f with state := f.state.activate f.slotId }

def retain : Frame := { f with state := f.state.retain f.slotId }

/-- `releaseIfPrototype` of the handle of the events, with `releasePrototypeLast`. -/
def release (cold : DescriptorCold) : Frame :=
  let s := f.state.releaseAcquire f.slotId
  if (f.state.slots f.slotId).refcount = 1 then
    (({ f with
        state := (cold.destruction.run s).state.reclaimSlot f.slotId }.note .destroyed).note
      .deallocated)
  else { f with state := s }

/-- The events and the hook of the creation. The exposed descriptor is that of the events,
    the hook is that of the primary. -/
def lifecycle (R : Registry) (exposed : DescriptorId) (cold : DescriptorCold) :
    Attempt Raised Frame :=
  if R.initialized.isSome || R.created.isSome then
    (((f.retain.callIfSet (R.initialized.map fun dispatch => dispatch exposed)).andThen fun f =>
      f.callIfSet cold.postConstruct).andThen fun f =>
      f.callIfSet (R.created.map fun dispatch => dispatch exposed)).cleanup (release · cold)
  else f.callIfSet cold.postConstruct

/-- The resolution is over, and what it holds is the caller's, or lost. -/
def letGo : Frame := { f with state := f.state.take f.slotId none }

/-- The destructor of the `CycleGuard`. -/
def leave : Frame := { f with state := { f.state with stack := f.state.stack.tail } }

/-- `MaterializedBeanHandle::direct`. -/
def handle (d : DescriptorId) : Handle := ⟨f.mem, f.slotId, d⟩

end Frame

def State.push (s : State) (d : DescriptorId) : State := { s with stack := d :: s.stack }

namespace Registry

variable (R : Registry) (P : Platform)

/-- The prototype case of `materializeOneImpl`, for the exposed descriptor of a primary. -/
def materialize (exposed primary : DescriptorId) (s : State) : Attempt Raised Frame :=
  if primary ∈ s.stack then
    .fail { state := s } (.failure (.resolutionError
      "Registry: dependency cycle detected during bean materialization."))
  else
    ((({ state := s.push primary } : Frame).construct P primary (R.cold primary)).andThen
      fun f => (f.activate.lifecycle R exposed (R.cold primary)).cleanup .letGo).cleanup .leave

/-- The branch for a polymorphic alias. -/
def materializeAlias (d : DescriptorId) : State → Attempt Raised Frame :=
  R.materialize P d (R.primaryDescriptor d)

/-- The case of a prototype. -/
def materializePrototype (d : DescriptorId) : State → Attempt Raised Frame := R.materialize P d d

def isAlias (d : DescriptorId) : Bool :=
  R.primaryDescriptor d ≠ d && R.primaryDescriptor d ≠ kInvalidDescriptorId

/-- `materializeOneImpl` of a prototype. -/
def materializeOneImpl (d : DescriptorId) (s : State) : Attempt Raised Frame :=
  if R.isAlias d then R.materializeAlias P d s else R.materializePrototype P d s

/-- The descriptor that is constructed. -/
def primaryOf (d : DescriptorId) : DescriptorId := if R.isAlias d then R.primaryDescriptor d else d

theorem materializeOneImpl_eq (d : DescriptorId) (s : State) :
    R.materializeOneImpl P d s = R.materialize P d (R.primaryOf d) s := by
  unfold materializeOneImpl primaryOf
  split <;> rfl

end Registry

/-! ## What a resolution leaves behind -/

/-- No slot has become live, and none has ceased to be. -/
structure Neutral (s t : State) : Prop where
  liveSlotCount : t.liveSlotCount = s.liveSlotCount
  liveSlots : ∀ i, t.isLive i = s.isLive i

/-- A resolution that has failed leaves no trace. -/
structure NoTrace (s : State) (f : Frame) : Prop where
  live : Neutral s f.state
  /-- A constructed object is gone. -/
  object : .constructed ∈ f.trace →
    f.trace.count .destroyed = 1 ∧ f.trace.count .deallocated = 1
  stack : f.state.stack = s.stack

namespace State

variable (P : Platform) (s : State)

/-- A new slot cannot be had. -/
def full : Prop :=
  s.freelist = [] ∧ (P.maxSlots.any (· ≤ s.slotCount) ∨ P.chunkFails s.slotCount)

/-- The state in which the constructor of an object runs that has its slot. -/
def reserved (d : DescriptorId) : State :=
  (({ s with nextObject := s.nextObject + 1 } : State).allocate P d (some s.nextObject)).state

/-- The resolution of the primary fails before the object is constructed, and the user code
    that has run by then leaves the live slots as they are. -/
def FailsEarly (d : DescriptorId) (cold : DescriptorCold) : Prop :=
  match cold.allocAndConstruct with
  | some producer => (producer.run s).failure ≠ none ∧ Neutral s (producer.run s).state
  | none => P.newFails ∨ s.full P ∨ (cold.construct.run (s.reserved P d)).failure ≠ none ∧
      Neutral s (cold.construct.run (s.reserved P d)).state

end State

/-! ## Taking and releasing a slot -/

variable {s t : State} {f : Frame} {d : DescriptorId} {n : ℕ} {P : Platform}

theorem Neutral.of_refcount (hcount : t.liveSlotCount = s.liveSlotCount)
    (hslots : ∀ i, (t.slots i).refcount = (s.slots i).refcount) : Neutral s t :=
  ⟨hcount, fun i => by rw [State.isLive, State.isLive, hslots]⟩

theorem Neutral.trans {u : State} (h : Neutral s t) (h' : Neutral t u) : Neutral s u :=
  ⟨h'.liveSlotCount.trans h.liveSlotCount, fun i => (h'.liveSlots i).trans (h.liveSlots i)⟩

theorem Neutral.symm (h : Neutral s t) : Neutral t s :=
  ⟨h.liveSlotCount.symm, fun i => (h.liveSlots i).symm⟩

namespace State

theorem Keeps.refl (hs : s.Sound) : s.Keeps s := ⟨rfl, rfl, hs⟩

theorem Sound.of_eq (hs : s.Sound) (hslots : ∀ i, (t.slots i).refcount = (s.slots i).refcount)
    (hcount : t.slotCount = s.slotCount) (hfree : t.freelist = s.freelist)
    (htaken : t.taken = s.taken) : t.Sound := by
  refine ⟨fun i n hi => ?_, fun i n hi => ?_, fun i => ?_, ?_, ?_⟩
  · rw [hslots]
    exact hs.held i n (htaken ▸ hi)
  · rw [hfree, hcount]
    exact hs.notFree i n (htaken ▸ hi)
  · rw [hslots]
    exact hs.refcount_lt i
  · rw [hfree, hcount]
    exact hs.freelist_lt
  · rw [hfree]
    exact hs.freelist_nodup

theorem Sound.push (hs : s.Sound) (d : DescriptorId) : (s.push d).Sound :=
  hs.of_eq (fun _ => rfl) rfl rfl rfl

/-- The slot that `allocate` returns is not taken. -/
theorem Sound.nextSlot_fresh (hs : s.Sound) : s.taken s.nextSlot = none := by
  rw [Option.eq_none_iff_forall_ne_some]
  intro n hn
  obtain ⟨hfree, hlt⟩ := hs.notFree _ n hn
  unfold nextSlot at hfree hlt
  cases hl : s.freelist with
  | nil => simp [hl] at hlt
  | cons i rest => simp [hl] at hfree

theorem Keeps.trans {u : State} (h : s.Keeps t) (h' : t.Keeps u) : s.Keeps u :=
  ⟨h'.stack.trans h.stack, h'.taken.trans h.taken, h'.sound⟩

/-- An allocation fails if no slot can be had, and then takes none. -/
theorem allocate_fails (mem : Option ObjectId) :
    (s.allocate P d mem).failure ≠ none ↔ s.full P := by
  unfold allocate full
  cases hl : s.freelist with
  | nil =>
    dsimp only
    split_ifs with hmax hchunk <;> simp [*]
  | cons i rest => simp

/-- What an allocation does to the counts: nothing. -/
theorem allocate_refcount (mem : Option ObjectId) (i : SlotId) :
    ((s.allocate P d mem).state.slots i).refcount = (s.slots i).refcount := by
  have hset : ∀ j, ((update s.slots j { s.slots j with memory := mem, descId := d }) i).refcount =
      (s.slots i).refcount := by
    intro j
    by_cases hi : i = j
    · subst hi
      rw [update_self]
    · rw [update_of_ne hi]
  unfold allocate
  dsimp only
  split
  · exact hset _
  · split_ifs
    · rfl
    · rfl
    · exact hset _

theorem allocate_frame (mem : Option ObjectId) :
    (s.allocate P d mem).state.stack = s.stack ∧
      (s.allocate P d mem).state.liveSlotCount = s.liveSlotCount := by
  unfold allocate
  dsimp only
  split
  · exact ⟨rfl, rfl⟩
  · split_ifs <;> exact ⟨rfl, rfl⟩

theorem Sound.allocate_of_fail (hs : s.Sound) (mem : Option ObjectId) (hfull : s.full P) :
    (s.allocate P d mem).state.Sound ∧ (s.allocate P d mem).state.taken = s.taken := by
  unfold allocate
  rw [hfull.1]
  dsimp only
  split_ifs with hmax hchunk
  · exact ⟨hs, rfl⟩
  · refine ⟨⟨hs.held, fun i n hi => ?_, hs.refcount_lt, nofun, List.nodup_nil⟩, rfl⟩
    exact ⟨List.not_mem_nil, Nat.lt_succ_of_lt (hs.notFree i n hi).2⟩
  · rcases hfull.2 with h | h
    · exact absurd h hmax
    · exact absurd h hchunk

/-- A resolution has taken the slot, and holds `n` references to it. -/
structure Holds (s t : State) (i : SlotId) (n : ℕ) : Prop where
  stack : t.stack = s.stack
  taken : t.taken = update s.taken i (some n)
  fresh : s.taken i = none
  sound : t.Sound

theorem Sound.allocate_of_ok (hs : s.Sound) (mem : Option ObjectId) (hfull : ¬s.full P) :
    (s.allocate P d mem).state.taken = update s.taken s.nextSlot (some 0) ∧
      (s.allocate P d mem).state.freelist = s.freelist.tail ∧
      s.slotCount ≤ (s.allocate P d mem).state.slotCount ∧
      s.nextSlot < (s.allocate P d mem).state.slotCount := by
  unfold allocate nextSlot
  cases hl : s.freelist with
  | nil =>
    dsimp only
    split_ifs with hmax hchunk
    · exact absurd ⟨hl, .inl hmax⟩ hfull
    · exact absurd ⟨hl, .inr hchunk⟩ hfull
    · exact ⟨rfl, hl, Nat.le_succ _, Nat.lt_succ_self _⟩
  | cons i rest => exact ⟨rfl, rfl, le_rfl, hs.freelist_lt i (hl ▸ List.mem_cons_self)⟩

theorem Sound.nextSlot_notMem_tail (hs : s.Sound) : s.nextSlot ∉ s.freelist.tail := by
  have hnodup := hs.freelist_nodup
  unfold nextSlot
  cases hl : s.freelist with
  | nil => exact List.not_mem_nil
  | cons i rest =>
    rw [hl] at hnodup
    exact (List.nodup_cons.mp hnodup).1

theorem Sound.allocate_holds (hs : s.Sound) (mem : Option ObjectId) (hfull : ¬s.full P) :
    s.Holds (s.allocate P d mem).state s.nextSlot 0 := by
  have hrefcount := allocate_refcount (P := P) (d := d) (s := s) mem
  obtain ⟨htaken, hfree, hle, hlt⟩ := hs.allocate_of_ok (d := d) mem hfull
  -- What is taken afterwards was taken before, or is the new slot.
  have hother : ∀ j n, (s.allocate P d mem).state.taken j = some n →
      j = s.nextSlot ∧ n = 0 ∨ s.taken j = some n := by
    intro j n hj
    rw [htaken] at hj
    by_cases hne : j = s.nextSlot
    · subst hne
      rw [update_self] at hj
      exact .inl ⟨rfl, (Option.some.inj hj).symm⟩
    · exact .inr (by rwa [update_of_ne hne] at hj)
  refine ⟨(allocate_frame mem).1, htaken, hs.nextSlot_fresh,
    ⟨fun j n hj => ?_, fun j n hj => ?_, fun j => ?_, fun j hj => ?_, ?_⟩⟩
  · rw [hrefcount]
    rcases hother j n hj with ⟨-, rfl⟩ | hj
    · exact Nat.zero_le _
    · exact hs.held j n hj
  · rw [hfree]
    rcases hother j n hj with ⟨rfl, -⟩ | hj
    · exact ⟨hs.nextSlot_notMem_tail, hlt⟩
    · obtain ⟨hnot, hj⟩ := hs.notFree j n hj
      exact ⟨fun hmem => hnot (List.mem_of_mem_tail hmem), hj.trans_le hle⟩
  · rw [hrefcount]
    exact hs.refcount_lt j
  · rw [hfree] at hj
    exact (hs.freelist_lt j (List.mem_of_mem_tail hj)).trans_le hle
  · rw [hfree]
    exact hs.freelist_nodup.tail

theorem Sound.reserved (hs : s.Sound) (hfull : ¬s.full P) : (s.reserved P d).Sound := by
  have hnext : ({ s with nextObject := s.nextObject + 1 } : State).Sound :=
    hs.of_eq (fun _ => rfl) rfl rfl rfl
  exact (hnext.allocate_holds _ hfull).sound

theorem neutral_reserved : Neutral s (s.reserved P d) :=
  .of_refcount (allocate_frame _).2 (allocate_refcount _)

theorem Holds.keeps {u : State} {i : SlotId} (h : s.Holds t i n) (h' : t.Keeps u) : s.Holds u i n :=
  ⟨h'.stack.trans h.stack, h'.taken.trans h.taken, h.fresh, h'.sound⟩

theorem Keeps.holds {u : State} {i : SlotId} (h : s.Keeps t) (h' : t.Holds u i n) : s.Holds u i n :=
  ⟨h'.stack.trans h.stack, h.taken ▸ h'.taken, h.taken ▸ h'.fresh, h'.sound⟩

/-- A change at a slot that the resolution has taken. -/
theorem Holds.update {u : State} {i : SlotId} {m : ℕ} (h : s.Holds t i n)
    (hstack : u.stack = t.stack) (htaken : u.taken = update t.taken i (some m))
    (hheld : m ≤ (u.slots i).refcount) (hlt : (u.slots i).refcount < 2 ^ 32)
    (hother : ∀ j, j ≠ i → (u.slots j).refcount = (t.slots j).refcount)
    (hcount : u.slotCount = t.slotCount) (hfree : u.freelist = t.freelist) : s.Holds u i m := by
  have hself : t.taken i = some n := by rw [h.taken, update_self]
  refine ⟨hstack.trans h.stack, ?_, h.fresh,
    ⟨fun j k hj => ?_, fun j k hj => ?_, fun j => ?_, ?_, ?_⟩⟩
  · rw [htaken, h.taken, update_idem]
  -- The references of slot `i` change, those of all others stay.
  · by_cases hji : j = i
    · subst hji
      rw [htaken, update_self] at hj
      exact Option.some.inj hj ▸ hheld
    · rw [htaken, update_of_ne hji] at hj
      rw [hother j hji]
      exact h.sound.held j k hj
  · rw [hfree, hcount]
    by_cases hji : j = i
    · exact hji ▸ h.sound.notFree i n hself
    · rw [htaken, update_of_ne hji] at hj
      exact h.sound.notFree j k hj
  · by_cases hji : j = i
    · exact hji ▸ hlt
    · rw [hother j hji]
      exact h.sound.refcount_lt j
  · rw [hfree, hcount]
    exact h.sound.freelist_lt
  · rw [hfree]
    exact h.sound.freelist_nodup

theorem Holds.activate {i : SlotId} (h : s.Holds t i n) : s.Holds (t.activate i) i 1 := by
  refine h.update rfl rfl ?_ ?_ (fun j hj => ?_) rfl rfl
  · simp [State.activate, take, setSlot]
  · simp [State.activate, take, setSlot]
  · simp [State.activate, take, setSlot, hj]

theorem Holds.retain {i : SlotId} (h : s.Holds t i n) (hlt : (t.slots i).refcount + 1 < 2 ^ 32) :
    s.Holds (t.retain i) i (n + 1) := by
  have hself : t.taken i = some n := by rw [h.taken, update_self]
  have hheld := h.sound.held i n hself
  refine h.update rfl ?_ ?_ ?_ (fun j hj => ?_) rfl rfl
  · simp [State.retain, take, setSlot, hself]
  · simp only [State.retain, take, setSlot, update_self, Nat.mod_eq_of_lt hlt]
    exact Nat.succ_le_succ hheld
  · simp only [State.retain, take, setSlot, update_self, Nat.mod_eq_of_lt hlt]
    exact hlt
  · simp [State.retain, take, setSlot, hj]

theorem Holds.releaseAcquire {i : SlotId} (h : s.Holds t i (n + 1)) :
    s.Holds (t.releaseAcquire i) i n := by
  have hself : t.taken i = some (n + 1) := by rw [h.taken, update_self]
  have hheld := h.sound.held i _ hself
  have hlt := h.sound.refcount_lt i
  have hcount : ((t.slots i).refcount + (2 ^ 32 - 1)) % 2 ^ 32 = (t.slots i).refcount - 1 := by
    omega
  refine h.update rfl ?_ ?_ ?_ (fun j hj => ?_) rfl rfl
  · simp [State.releaseAcquire, take, setSlot, hself]
  · simp only [State.releaseAcquire, take, setSlot, update_self, hcount]
    omega
  · simp only [State.releaseAcquire, take, setSlot, update_self, hcount]
    omega
  · simp [State.releaseAcquire, take, setSlot, hj]

/-- What the resolution holds is lost. -/
theorem Holds.letGo {i : SlotId} (h : s.Holds t i n) : s.Keeps (t.take i none) := by
  have htaken : (t.take i none).taken = s.taken := by
    simp [take, h.taken, ← h.fresh]
  refine ⟨h.stack, htaken, ⟨fun j k hj => ?_, fun j k hj => ?_, h.sound.refcount_lt,
    h.sound.freelist_lt, h.sound.freelist_nodup⟩⟩ <;>
    rw [htaken] at hj <;>
    have hji : j ≠ i := by
      rintro rfl
      rw [h.fresh] at hj
      cases hj
  · exact h.sound.held j k (by rw [h.taken, update_of_ne hji]; exact hj)
  · exact h.sound.notFree j k (by rw [h.taken, update_of_ne hji]; exact hj)

theorem reclaim_refcount (i j : SlotId) :
    ((t.reclaim i).slots j).refcount = (t.slots j).refcount := by
  by_cases hji : j = i
  · subst hji
    simp [reclaim, take, setSlot]
  · simp [reclaim, take, setSlot, hji]

theorem Holds.reclaim {i : SlotId} (h : s.Holds t i n) : s.Keeps (t.reclaim i) := by
  have hself : t.taken i = some n := by rw [h.taken, update_self]
  have hgone := h.letGo
  have hrefcount := reclaim_refcount (t := t) i
  refine ⟨h.stack, hgone.taken,
    ⟨fun j k hj => ?_, fun j k hj => ?_, fun j => ?_, fun j hj => ?_, ?_⟩⟩
  · rw [hrefcount]
    exact hgone.sound.held j k hj
  · refine ⟨List.not_mem_cons_of_ne_of_not_mem ?_ (hgone.sound.notFree j k hj).1,
      (hgone.sound.notFree j k hj).2⟩
    rintro rfl
    have hnone : (t.take j none).taken j = some k := hj
    rw [hgone.taken, h.fresh] at hnone
    cases hnone
  · rw [hrefcount]
    exact h.sound.refcount_lt j
  · rcases List.mem_cons.mp hj with rfl | hj
    · exact (h.sound.notFree _ n hself).2
    · exact h.sound.freelist_lt j hj
  · exact List.nodup_cons.mpr ⟨(h.sound.notFree i n hself).1, h.sound.freelist_nodup⟩

end State

/-! ## The steps of a resolution -/

namespace Frame

open State

variable {R : Registry} {cold : DescriptorCold} {g : Frame}

/-- The resolution of the frame `f` has gone on to `g`, with `n` references to its slot, and
    nothing has happened to the object. -/
structure Creates (s : State) (f : Frame) (n : ℕ) (g : Frame) : Prop where
  slotId : g.slotId = f.slotId
  trace : g.trace = f.trace
  holds : s.Holds g.state g.slotId n

theorem Creates.call (h : Creates s f n g) (c : Callback) : Creates s f n (g.call c).state :=
  ⟨h.slotId, h.trace, h.holds.keeps (c.keeps _ h.holds.sound)⟩

theorem Creates.callIfSet (h : Creates s f n g) (c : Option Callback) :
    Creates s f n (g.callIfSet c).state := by
  cases c with
  | none => exact h
  | some c => exact h.call c

/-- The handle of the events is not the last one. -/
theorem Creates.release (h : Creates s f 2 g) : Creates s f 1 (g.release cold) := by
  have hself : g.state.taken g.slotId = some 2 := by rw [h.holds.taken, update_self]
  have hheld := h.holds.sound.held _ _ hself
  unfold Frame.release
  rw [if_neg (by omega)]
  exact ⟨h.slotId, h.trace, h.holds.releaseAcquire⟩

/-- The hooks and listeners leave the object and the first reference as they are. -/
theorem creates_lifecycle (h : s.Holds f.state f.slotId n) (exposed : DescriptorId)
    (cold : DescriptorCold) :
    Creates s f 1 (f.activate.lifecycle R exposed cold).state := by
  have hactive : Creates s f 1 f.activate := ⟨rfl, rfl, h.activate⟩
  have hcount : (f.activate.state.slots f.slotId).refcount = 1 := by
    simp [Frame.activate, State.activate, State.take, State.setSlot]
  have hretain : Creates s f 2 f.activate.retain :=
    ⟨rfl, rfl, hactive.holds.retain (by rw [hactive.slotId, hcount]; decide)⟩
  unfold lifecycle
  split_ifs
  · refine Creates.release ?_
    refine Attempt.andThen_invariant (P := Creates s f 2) ?_ fun g hg => hg.callIfSet _
    exact Attempt.andThen_invariant (hretain.callIfSet _) fun g hg => hg.callIfSet _
  · exact hactive.callIfSet _

/-- How the construction ends. -/
inductive Constructs (P : Platform) (s : State) (d : DescriptorId) (cold : DescriptorCold)
    (a : Attempt Raised Frame) : Prop
  /-- The object is in its slot. -/
  | created (hok : a.failure = none) (hholds : s.Holds a.state.state a.state.slotId 0)
    (htrace : .constructed ∈ a.state.trace ∧ .destroyed ∉ a.state.trace)
    (hearly : ¬s.FailsEarly P d cold)
  /-- A product has been constructed, and there is no slot for it. -/
  | lost (hfail : a.failure ≠ none) (hkeeps : s.Keeps a.state.state)
    (htrace : .constructed ∈ a.state.trace ∧ .destroyed ∉ a.state.trace)
    (hearly : ¬s.FailsEarly P d cold)
  | failed (hfail : a.failure ≠ none) (hkeeps : s.Keeps a.state.state)
    (htrace : .constructed ∉ a.state.trace)
    (hearly : s.FailsEarly P d cold ↔ Neutral s a.state.state)

theorem allocateSlot_failure : (f.allocateSlot P d).failure ≠ none ↔ f.state.full P :=
  allocate_fails f.mem

theorem allocateSlot_keeps (h : s.Keeps f.state) (hfull : f.state.full P) :
    s.Keeps (f.allocateSlot P d).state.state := by
  obtain ⟨hsound, htaken⟩ := h.sound.allocate_of_fail (d := d) f.mem hfull
  exact h.trans ⟨(allocate_frame f.mem).1, htaken, hsound⟩

theorem allocateSlot_holds (h : s.Keeps f.state) (hfull : ¬f.state.full P) :
    s.Holds (f.allocateSlot P d).state.state (f.allocateSlot P d).state.slotId 0 :=
  h.holds (h.sound.allocate_holds f.mem hfull)

theorem newObject_keeps (h : s.Keeps f.state) : s.Keeps f.newObject.state :=
  h.trans ⟨rfl, rfl, h.sound.of_eq (fun _ => rfl) rfl rfl rfl⟩

/-- A product that is returned as `unique_ptr`. -/
theorem constructs_product (hs : s.Sound) {producer : Callback}
    (hcold : cold.allocAndConstruct = some producer) :
    Constructs P s d cold (({ state := s } : Frame).construct P d cold) := by
  unfold construct
  rw [hcold]
  dsimp only
  have hkeeps : s.Keeps (producer.run s).state := producer.keeps s hs
  have hearly : s.FailsEarly P d cold ↔
      (producer.run s).failure ≠ none ∧ Neutral s (producer.run s).state := by
    rw [FailsEarly, hcold]
  -- The producer runs first: if it throws, there is no slot to give back.
  cases hp : (producer.run s).failure with
  | some e =>
    have hcall : (({ state := s } : Frame).call producer).failure = some e := hp
    rw [Attempt.andThen_of_fail hcall, Attempt.andThen_of_fail hcall]
    refine .failed (by rw [hcall]; exact nofun) hkeeps List.not_mem_nil ?_
    rw [hearly, hp]
    exact and_iff_right nofun
  | none =>
    have hcall : (({ state := s } : Frame).call producer).failure = none := hp
    rw [Attempt.andThen_of_ok hcall, Attempt.andThen_of_ok rfl, Attempt.ok_state]
    have hnot : ¬s.FailsEarly P d cold := fun h => (hearly.mp h).1 hp
    have hg : s.Keeps (({ state := s } : Frame).call producer).state.newObject.state :=
      newObject_keeps hkeeps
    have htrace : .constructed ∈ ((({ state := s } : Frame).call producer).state.newObject.note
        .constructed).trace ∧ .destroyed ∉ ((({ state := s } : Frame).call
        producer).state.newObject.note .constructed).trace := by
      simp [note, newObject, Frame.call]
    -- The object is there; without a slot it is lost.
    by_cases hfull : ((({ state := s } : Frame).call producer).state.newObject).state.full P
    · exact .lost (allocateSlot_failure.mpr hfull) (allocateSlot_keeps hg hfull) htrace hnot
    · exact .created (not_ne_iff.mp (mt allocateSlot_failure.mp hfull))
        (allocateSlot_holds hg hfull) htrace hnot

/-- Any other product, which is constructed in its slot. -/
theorem constructs_inPlace (hs : s.Sound) (hcold : cold.allocAndConstruct = none) :
    Constructs P s d cold (({ state := s } : Frame).construct P d cold) := by
  unfold construct
  rw [hcold]
  dsimp only
  have hearly : s.FailsEarly P d cold ↔ P.newFails ∨ s.full P ∨
      (cold.construct.run (s.reserved P d)).failure ≠ none ∧
        Neutral s (cold.construct.run (s.reserved P d)).state := by
    rw [FailsEarly, hcold]
  -- The memory, the slot, and the constructor may fail, in this order.
  by_cases hnew : P.newFails
  · have hcall : (({ state := s } : Frame).operatorNew P).failure = some .badAlloc := by
      simp [operatorNew, hnew]
    have hstate : (({ state := s } : Frame).operatorNew P).state = { state := s } := by
      simp [operatorNew, hnew]
    rw [Attempt.andThen_of_fail hcall, Attempt.andThen_of_fail hcall]
    refine .failed (by rw [hcall]; rintro ⟨⟩) ?_ ?_ ?_ <;> rw [hstate]
    · exact .refl hs
    · exact List.not_mem_nil
    · exact iff_of_true (hearly.mpr (.inl hnew)) ⟨rfl, fun _ => rfl⟩
  · have hslot : ((({ state := s } : Frame).operatorNew P).andThen fun f => f.allocateSlot P d) =
        ({ state := s } : Frame).newObject.allocateSlot P d := by
      simp [operatorNew, hnew, Attempt.andThen]
    rw [hslot]
    have hg : s.Keeps ({ state := s } : Frame).newObject.state := newObject_keeps (.refl hs)
    have hneutral : Neutral s (({ state := s } : Frame).newObject.allocateSlot P d).state.state :=
      .of_refcount (allocate_frame _).2 (allocate_refcount _)
    have hslots := allocateSlot_failure (P := P) (d := d) (f := ({ state := s } : Frame).newObject)
    by_cases hfull : s.full P
    · have hfail := hslots.mpr hfull
      obtain ⟨e, he⟩ := Option.ne_none_iff_exists'.mp hfail
      rw [Attempt.andThen_of_fail he]
      exact .failed hfail (allocateSlot_keeps hg hfull) (by simp [allocateSlot, newObject, note])
        (iff_of_true (hearly.mpr (.inr (.inl hfull))) hneutral)
    · have hok := not_ne_iff.mp (mt hslots.mp hfull)
      rw [Attempt.andThen_of_ok hok]
      have hholds := allocateSlot_holds (d := d) hg hfull
      have hearly' : s.FailsEarly P d cold ↔
          (cold.construct.run (s.reserved P d)).failure ≠ none ∧
            Neutral s (cold.construct.run (s.reserved P d)).state := by
        rw [hearly, or_iff_right hnew, or_iff_right hfull]
      generalize hf : (({ state := s } : Frame).newObject.allocateSlot P d).state = f at *
      have hstate : f.state = s.reserved P d := hf ▸ rfl
      have htrace : f.trace = [.allocated] := hf ▸ rfl
      rw [← hstate] at hearly'
      have hcall : s.Holds (f.call cold.construct).state.state f.slotId 0 :=
        hholds.keeps (cold.construct.keeps _ hholds.sound)
      -- If the constructor throws, its handler gives the slot back.
      cases hc : (cold.construct.run f.state).failure with
      | none =>
        have hok : (f.call cold.construct).failure = none := hc
        rw [Attempt.andThen_of_ok hok, Attempt.rethrow_of_ok rfl]
        refine .created rfl hcall ?_ fun h => (hearly'.mp h).1 hc
        simp [note, Frame.call, htrace]
      | some e =>
        have hfail : (f.call cold.construct).failure = some e := hc
        rw [Attempt.andThen_of_fail hfail, Attempt.rethrow_of_fail hfail]
        refine .failed (by rw [Attempt.cleanup_failure, hfail]; rintro ⟨⟩) hcall.reclaim ?_ ?_
        · simp [abandon, note, Frame.call, htrace]
        · rw [hearly', hc, and_iff_right (by rintro ⟨⟩)]
          have hreclaim : Neutral (cold.construct.run f.state).state
              ((cold.construct.run f.state).state.reclaim f.slotId) :=
            .of_refcount rfl (reclaim_refcount _)
          exact ⟨fun h => h.trans hreclaim, fun h => h.trans hreclaim.symm⟩

theorem constructs (hs : s.Sound) :
    Constructs P s d cold (({ state := s } : Frame).construct P d cold) := by
  cases hcold : cold.allocAndConstruct with
  | some producer => exact constructs_product hs hcold
  | none => exact constructs_inPlace hs hcold

end Frame

/-! ## The results -/

/-- A state between the steps of user code, which may run for other resolutions. -/
structure Store extends State where
  sound : toState.Sound

namespace Registry

variable {R : Registry} {exposed primary : DescriptorId}

/-- The guard's destructor takes the entry of the guard off the stack. -/
theorem keeps_leave (h : (s.push d).Keeps f.state) : s.Keeps f.leave.state :=
  ⟨by simp [Frame.leave, h.stack, State.push], h.taken, h.sound.of_eq (fun _ => rfl) rfl rfl rfl⟩

/-- How a resolution ends that is not a dependency cycle. -/
theorem materialize_cases (hs : s.Sound) (hcycle : primary ∉ s.stack) :
    s.Keeps (R.materialize P exposed primary s).state.state ∧
      ((R.materialize P exposed primary s).failure ≠ none →
        (NoTrace s (R.materialize P exposed primary s).state ↔
          (s.push primary).FailsEarly P primary (R.cold primary))) := by
  unfold materialize
  rw [if_neg hcycle]
  generalize ha : ({ state := s.push primary } : Frame).construct P primary (R.cold primary) = a
  have hconstructs : Frame.Constructs P (s.push primary) primary (R.cold primary) a :=
    ha ▸ Frame.constructs (hs.push primary)
  cases hconstructs with
  | created hok hholds htrace hearly =>
    rw [Attempt.andThen_of_ok hok]
    have hcreates := Frame.creates_lifecycle (R := R) hholds exposed (R.cold primary)
    refine ⟨keeps_leave hcreates.holds.letGo, fun _ => iff_of_false (fun h => ?_) hearly⟩
    -- The object is there, and nobody destroys it.
    rw [← hcreates.trace] at htrace
    have hgone := (h.object htrace.1).1
    exact htrace.2 (List.count_pos_iff.mp (hgone ▸ Nat.one_pos))
  | lost hfail hkeeps htrace hearly =>
    obtain ⟨e, he⟩ := Option.ne_none_iff_exists'.mp hfail
    rw [Attempt.andThen_of_fail he]
    refine ⟨keeps_leave hkeeps, fun _ => iff_of_false (fun h => ?_) hearly⟩
    have hgone := (h.object htrace.1).1
    exact htrace.2 (List.count_pos_iff.mp (hgone ▸ Nat.one_pos))
  | failed hfail hkeeps htrace hearly =>
    obtain ⟨e, he⟩ := Option.ne_none_iff_exists'.mp hfail
    rw [Attempt.andThen_of_fail he]
    have hleft := keeps_leave hkeeps
    refine ⟨hleft, fun _ => ?_⟩
    rw [hearly]
    constructor
    · exact fun h => ⟨h.live.liveSlotCount, h.live.liveSlots⟩
    · exact fun h => ⟨⟨h.liveSlotCount, h.liveSlots⟩, fun hc => absurd hc htrace, hleft.stack⟩

/-- A resolution does nothing to the resolutions under way. -/
theorem keeps_materializeOneImpl (hs : s.Sound) :
    s.Keeps (R.materializeOneImpl P d s).state.state := by
  rw [materializeOneImpl_eq]
  by_cases hcycle : R.primaryOf d ∈ s.stack
  · rw [materialize, if_pos hcycle]
    exact .refl hs
  · exact (materialize_cases hs hcycle).1

variable (R P)

/-- A resolution as a part of the user code of other resolutions. -/
def resolution (d : DescriptorId) : Callback where
  run s := ⟨(R.materializeOneImpl P d s).state.state, (R.materializeOneImpl P d s).failure⟩
  keeps _ hs := keeps_materializeOneImpl hs

/-- A resolution of a prototype that fails leaves no trace exactly if it is a dependency
    cycle, or fails before the object is constructed, by user code that leaves none. -/
theorem no_trace_iff (d : DescriptorId) (s : Store)
    (hfail : (R.materializeOneImpl P d s.toState).failure ≠ none) :
    NoTrace s.toState (R.materializeOneImpl P d s.toState).state ↔
      R.primaryOf d ∈ s.stack ∨
        (s.push (R.primaryOf d)).FailsEarly P (R.primaryOf d) (R.cold (R.primaryOf d)) := by
  rw [materializeOneImpl_eq] at hfail ⊢
  by_cases hcycle : R.primaryOf d ∈ s.stack
  · refine iff_of_true ?_ (.inl hcycle)
    rw [materialize, if_pos hcycle]
    exact ⟨⟨rfl, fun _ => rfl⟩, nofun, rfl⟩
  · rw [or_iff_right hcycle]
    exact (materialize_cases s.sound hcycle).2 hfail

/-- An injected prototype whose resolution fails without a trace lets the constructor fail
    without one. -/
theorem failsEarly_of_injection {cold : DescriptorCold} (hcold : cold.allocAndConstruct = none)
    {d' : DescriptorId} (hconstruct : cold.construct = R.resolution P d')
    (hfail : (R.materializeOneImpl P d' (s.reserved P d)).failure ≠ none)
    (htrace : NoTrace (s.reserved P d) (R.materializeOneImpl P d' (s.reserved P d)).state) :
    s.FailsEarly P d cold := by
  rw [State.FailsEarly, hcold, hconstruct]
  exact .inr (.inr ⟨hfail, State.neutral_reserved.trans htrace.live⟩)

end Registry

/-- User code that does nothing, and user code that throws. -/
def quiet : Callback where
  run := .ok
  keeps _ := .refl

def throwing : Callback where
  run s := .fail s (.failure .userException)
  keeps _ := .refl

/-- Prototypes with a constructor that throws. -/
def leaf : Registry where
  cold _ := { construct := throwing, destruction := quiet }
  primaryDescriptor _ := kInvalidDescriptorId

/-- Prototypes that get such a prototype injected, as an alias of the descriptor `1`. -/
def node : Registry where
  cold _ := { construct := leaf.resolution {} 0, destruction := quiet }
  primaryDescriptor _ := 1

theorem State.sound_initial : ({} : State).Sound where
  held _ _ h := nomatch h
  notFree _ _ h := nomatch h
  refcount_lt _ := Nat.two_pow_pos 32
  freelist_lt _ h := nomatch h
  freelist_nodup := List.nodup_nil

def Store.initial : Store := { sound := State.sound_initial }

/-- The exception of a nested constructor passes through both resolutions without a trace. -/
theorem nested_constructor_no_trace :
    (node.materializeOneImpl {} 2 Store.initial.toState).failure = some (.failure .userException) ∧
      NoTrace Store.initial.toState (node.materializeOneImpl {} 2 Store.initial.toState).state := by
  have hfail : (node.materializeOneImpl {} 2 Store.initial.toState).failure =
      some (.failure .userException) := rfl
  refine ⟨hfail, (node.no_trace_iff {} 2 Store.initial (by rw [hfail]; exact nofun)).mpr ?_⟩
  have hroom : ¬(Store.initial.push 1).full {} := by
    rintro ⟨-, h | h⟩ <;> cases h
  have hfail' : (leaf.materializeOneImpl {} 0 ((Store.initial.push 1).reserved {} 1)).failure ≠
      none := by decide
  have hleaf := (leaf.no_trace_iff {} 0 ⟨_, (State.sound_initial.push 1).reserved hroom⟩ hfail').mpr
    (.inr (.inr (.inr ⟨nofun, State.neutral_reserved⟩)))
  exact .inr (leaf.failsEarly_of_injection {} rfl rfl hfail' hleaf)

/-- A `postConstruct` hook that throws leaves a live slot behind. -/
theorem hook_leaves_slot :
    ∃ (R : Registry) (s : Store), (R.materializeOneImpl {} 0 s.toState).failure ≠ none ∧
      ¬NoTrace s.toState (R.materializeOneImpl {} 0 s.toState).state := by
  let R : Registry :=
    { cold := fun _ => { construct := quiet, postConstruct := some throwing, destruction := quiet }
      primaryDescriptor := fun _ => kInvalidDescriptorId }
  refine ⟨R, Store.initial, by decide, fun h => ?_⟩
  have hcount : (R.materializeOneImpl {} 0 Store.initial.toState).state.state.liveSlotCount = 1 :=
    rfl
  cases hcount.symm.trans h.live.liveSlotCount

end Ctorium.Unwinding
