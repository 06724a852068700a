import Ctorium.Basic
import Ctorium.Lib.Machine
import Mathlib.Logic.Function.Basic

/-!
# Views of the listener store

`ListenerStore::dispatch` iterates an immutable `View` without a lock. The view is
protected by the hazard cell of the dispatching thread:

* load `view_`, store it in the cell, load `view_` again, and start over if it
  has changed;
* iterate the view, that is, run the callbacks; they are user code and may
  dispatch again on the same thread and the same cell, or change the listeners;
* clear the cell.

`addListener`, `removeByToken`, `finalizeListeners` and `clear` run under `mutex_`.
They publish a new view (or none), retire the previous one to `allViews_`, and
then erase every retired view that no cell references, reading the cells one by
one.

Every atomic access is one step. A view is an object, so it has an identity
besides its address: an address may be used again once its view is erased, while
cells and comparisons only see addresses. What a view contains is left out here:
the protection of a view does not depend on it.
-/

namespace Ctorium.ListenerStore

open Function

/-- A thread, identified with its hazard slot. -/
abbrev ThreadId := ℕ

/-- The lifecycle phases, `kPhaseCount` of them. -/
inductive LifecyclePhase
  | initialized
  | created
  | preDestroy
  | destroyed
  deriving DecidableEq, Repr

/-- A view object: where it lies, and which one it is. -/
structure View where
  addr : Addr
  id : ℕ
  deriving DecidableEq, Repr

/-- The operations that change the listeners. -/
inductive Mutation
  | addListener (phase : LifecyclePhase)
  | addListenerDeferred (phase : LifecyclePhase)
  | finalizeListeners
  /-- `removeByToken` of a token found in the phase, or of an unknown token. -/
  | removeByToken (phase : Option LifecyclePhase)
  | clear
  deriving DecidableEq, Repr

/-- What a thread is in the middle of. -/
inductive Frame
  /-- A dispatch about to load `view_`. -/
  | load
  /-- A dispatch about to store the address in its cell. -/
  | publish (addr : Addr)
  /-- A dispatch about to load `view_` again. -/
  | validate (addr : Addr)
  /-- A dispatch inside `dispatchFromView_`, and whether a dispatch nested in one of its
      callbacks has stored to the cell (history). -/
  | iterate (view : View) (nested : Bool)
  /-- A dispatch about to clear its cell. -/
  | clear
  /-- A mutation that waits for `mutex_` or holds it. -/
  | mutate (m : Mutation)
  deriving DecidableEq, Repr

/-- The progress of `reclaimRetiredViews_`. -/
inductive Reclaim
  /-- The retired views that are still to be checked. -/
  | next (todo : List View)
  /-- `hazardReferences_` of a view: the next cell to read, and the number of cells. -/
  | scan (view : View) (todo : List View) (slot count : ℕ)
  deriving DecidableEq, Repr

/-- The store and the threads that use it. -/
structure State where
  phaseSizes : LifecyclePhase → ℕ
  /-- The published pointer `view_`. -/
  view : Option View
  currentView : Option View
  /-- The retired views. -/
  allViews : List View
  /-- The hazard cell of each thread. -/
  hazardViews : ThreadId → Option Addr
  publishedDispatchHazardSlots : ℕ
  /-- The thread that holds `mutex_` and its reclamation. -/
  reclaim : Option (ThreadId × Reclaim)
  /-- What each thread is in the middle of, innermost first. -/
  frames : ThreadId → List Frame
  /-- The identity of the next view. -/
  nextId : ℕ

def kDispatchHazardSlotCount : ℕ := 4096

/-- The store without listeners. -/
def initial : State where
  phaseSizes _ := 0
  view := none
  currentView := none
  allViews := []
  hazardViews _ := none
  publishedDispatchHazardSlots := 0
  reclaim := none
  frames _ := []
  nextId := 0

/-- User code runs outside of the store and in the callbacks of a dispatch. -/
def userCode : List Frame → Bool
  | [] => true
  | .iterate _ _ :: _ => true
  | _ => false

namespace State

/-- The views that are not erased. -/
def liveViews (s : State) : List View := s.currentView.toList ++ s.allViews

def setFrames (s : State) (t : ThreadId) (fs : List Frame) : State :=
  { s with frames := update s.frames t fs }

def setHazard (s : State) (t : ThreadId) (a : Option Addr) : State :=
  { s with hazardViews := update s.hazardViews t a }

/-- The cell of the thread no longer belongs to the dispatches below. -/
def markNested : List Frame → List Frame
  | [] => []
  | .iterate v _ :: rest => .iterate v true :: markNested rest
  | f :: rest => f :: markNested rest

/-- The next step of the dispatch `f` of thread `t` (the innermost frame). -/
def advanceDispatch (s : State) (t : ThreadId) (rest : List Frame) : Frame → Option State
  | .load =>
    match s.view with
    | none => some (s.setFrames t rest)
    | some v => some (s.setFrames t (.publish v.addr :: rest))
  | .publish a =>
    some ((s.setHazard t (some a)).setFrames t (.validate a :: markNested rest))
  | .validate a =>
    match s.view with
    | none => some ((s.setHazard t none).setFrames t rest)
    | some v =>
      if v.addr = a then some (s.setFrames t (.iterate v false :: rest))
      else some (s.setFrames t (.publish v.addr :: rest))
  | .iterate _ _ => some (s.setFrames t (.clear :: rest))
  | .clear => some ((s.setHazard t none).setFrames t rest)
  | .mutate _ => none

/-- The bookkeeping of a mutation, and whether it publishes a new view (`some true`),
    none (`some false`), or leaves the views alone. -/
def applySizes (s : State) : Mutation → State × Option Bool
  | .addListener p =>
    ({ s with phaseSizes := update s.phaseSizes p (s.phaseSizes p + 1) }, some true)
  | .addListenerDeferred p =>
    ({ s with phaseSizes := update s.phaseSizes p (s.phaseSizes p + 1) }, none)
  | .finalizeListeners => (s, some true)
  | .removeByToken (some p) =>
    ({ s with phaseSizes := update s.phaseSizes p (s.phaseSizes p - 1) }, some true)
  | .removeByToken none => (s, none)
  | .clear => ({ s with phaseSizes := fun _ => 0 }, some false)

/-- `rebuildView_` and the corresponding part of `clear`: retire the current view and
    publish the new one, allocated at an address that no live view has. -/
def publishView (s : State) (t : ThreadId) (new : Option View) : State :=
  let retired := s.allViews ++ s.currentView.toList
  { s with
    view := new
    currentView := new
    allViews := retired
    reclaim := some (t, .next retired)
    nextId := s.nextId + 1 }

/-- A mutation takes `mutex_`, changes the listeners and publishes a view. -/
def lock (s : State) (t : ThreadId) (m : Mutation) (rest : List Frame) (addr : Addr) :
    Option State :=
  match s.applySizes m with
  | (s, none) => some (s.setFrames t rest)
  | (s, some false) => some (s.publishView t none)
  | (s, some true) =>
    if addr ∈ s.liveViews.map (·.addr) then none
    else some (s.publishView t (some ⟨addr, s.nextId⟩))

/-- The next step of `reclaimRetiredViews_` by the thread that holds `mutex_`. -/
def advanceReclaim (s : State) (t : ThreadId) (rest : List Frame) : Reclaim → State
  | .next [] => { s.setFrames t rest with reclaim := none }
  | .next (v :: todo) =>
    let count := min s.publishedDispatchHazardSlots kDispatchHazardSlotCount
    { s with reclaim := some (t, .scan v todo 0 count) }
  | .scan v todo slot count =>
    if slot < count then
      if s.hazardViews slot = some v.addr then { s with reclaim := some (t, .next todo) }
      else { s with reclaim := some (t, .scan v todo (slot + 1) count) }
    else { s with allViews := s.allViews.erase v, reclaim := some (t, .next todo) }

end State

/-- What can happen. -/
inductive Action
  /-- A new thread takes a hazard slot. -/
  | acquireSlot
  /-- User code of a thread with a hazard slot dispatches an event. -/
  | dispatch (t : ThreadId) (phase : LifecyclePhase)
  /-- User code of a thread changes the listeners. -/
  | mutate (t : ThreadId) (m : Mutation)
  /-- A thread takes its next step; `addr` is where a new view is allocated. -/
  | advance (t : ThreadId) (addr : Addr)
  deriving DecidableEq, Repr

/-- The step function. The locked fallback of `dispatch` for threads without a hazard
    slot is left out: every dispatching thread has one. -/
def step (s : State) : Action → Option State
  | .acquireSlot =>
    if s.publishedDispatchHazardSlots < kDispatchHazardSlotCount then
      some { s with publishedDispatchHazardSlots := s.publishedDispatchHazardSlots + 1 }
    else none
  | .dispatch t phase =>
    if t < s.publishedDispatchHazardSlots ∧ userCode (s.frames t) then
      if s.phaseSizes phase = 0 then some s else some (s.setFrames t (.load :: s.frames t))
    else none
  | .mutate t m =>
    if userCode (s.frames t) then some (s.setFrames t (.mutate m :: s.frames t)) else none
  | .advance t addr =>
    match s.frames t with
    | [] => none
    | .mutate m :: rest =>
      match s.reclaim with
      | none => s.lock t m rest addr
      | some (owner, r) => if owner = t then some (s.advanceReclaim t rest r) else none
    | f :: rest => s.advanceDispatch t rest f

/-- The machine that interleaves dispatches and mutations of all threads. -/
def machine : Machine State Action := ⟨fun s => s = initial, step⟩

end Ctorium.ListenerStore
