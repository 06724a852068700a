import Mathlib.Data.List.Sort
import Ctorium.ListenerStore
import Ctorium.TypeIndex

/-!
# Registration, removal and dispatch of listeners

`BeanContext::on` registers a callback for a lifecycle phase, on the root context
or on a scope, for the beans of a type or for all beans.

* A listener for all beans goes to the `ListenerStore` at once. So does a typed
  one on a started registry; on a registry that is not started, `on<T>` only
  reserves a token and appends the listener to the `deferredListeners_` of its
  context, and `start()` inserts these later, context by context.
* The store keeps the listeners of each phase by descending priority; the place
  of a new one is found by its priority alone. Each change publishes a new view.
* `dispatch` takes the published view and calls its callbacks one by one. What
  they do, be it a registration or a removal, does not change the view, so the
  calls of a callback are steps like those of other user code.
* A handle stands for its registration by the token; `remove()` looks for the
  token in the store.

`stop()` is left out: it clears the store and ends the context, whose handles
are then void.
-/

namespace Ctorium.Listeners

open Function (update)
open ListenerStore (LifecyclePhase)

/-- A context that listeners are registered on: the root, or a scope under its name. -/
abbrev ContextId := Option NameId

/-- A bean event. -/
structure Event where
  phase : LifecyclePhase
  beanTypeId : TypeId
  /-- The scope of the bean; `none` is `kNoScope`. -/
  emitterScope : Option NameId
  /-- The types `T` for which the bean of the event is `compatible<T>()`. -/
  compatible : CppType → Bool

/-- What the events of a bean take from its descriptor. -/
structure EventSource where
  exposedType : TypeId
  /-- The types that the bean of an event is `compatible` with. -/
  compatible : CppType → Bool

/-- An event of a bean. -/
def EventSource.event (source : EventSource) (phase : LifecyclePhase)
    (emitterScope : Option NameId) : Event where
  phase := phase
  beanTypeId := source.exposedType
  emitterScope := emitterScope
  compatible := source.compatible

/-- The closure that `on` wraps around a user callback: `on<T>` filters by compatibility. -/
structure Wrapper where
  type : Option CppType
  callback : ℕ
  deriving DecidableEq, Repr

/-- The wrapper forwards the event to the user callback. -/
def Wrapper.forwards (w : Wrapper) (e : Event) : Bool :=
  match w.type with
  | none => true
  | some t => e.compatible t

/-! ## The store -/

/-- An entry of the store. -/
structure Entry where
  /-- The type filter of the store; `none` is `kInvalidTypeId`. -/
  typeId : Option TypeId
  /-- The scope filter; `none` is `kAllScopes`. -/
  listenerScope : Option NameId
  callback : Wrapper
  priority : ℤ
  token : ℕ
  phase : LifecyclePhase
  deriving DecidableEq, Repr

/-- An entry of a view. -/
structure ViewEntry where
  callback : Wrapper
  listenerScope : Option NameId
  priority : ℤ
  token : ℕ
  deriving DecidableEq, Repr

def Entry.toView (e : Entry) : ViewEntry := ⟨e.callback, e.listenerScope, e.priority, e.token⟩

/-- The view of a phase: its type-agnostic listeners and those of each type. -/
structure PhaseView where
  global : List ViewEntry
  typed : TypeId → List ViewEntry

/-- The listener store. -/
structure Store where
  phases : LifecyclePhase → List Entry := fun _ => []
  phaseSizes : LifecyclePhase → ℕ := fun _ => 0
  nextToken : ℕ := 0
  /-- The published view, if there is one. -/
  view : Option (LifecyclePhase → PhaseView) := none

namespace Store

/-- The view of the entries of a phase. -/
def phaseView (entries : List Entry) : PhaseView where
  global := (entries.filter (·.typeId = none)).map Entry.toView
  typed t := (entries.filter (·.typeId = some t)).map Entry.toView

/-- `rebuildView_`: publish the view of the current entries. -/
def rebuildView (st : Store) : Store :=
  { st with view := some fun p => phaseView (st.phases p) }

/-- `reserveToken`. -/
def reserveToken (st : Store) : Store := { st with nextToken := st.nextToken + 1 }

/-- Insert an entry behind all entries of its phase whose priority is not lower. -/
def insertEntry (st : Store) (e : Entry) : Store :=
  { st with
    phases := update st.phases e.phase
      ((st.phases e.phase).orderedInsert (fun a b => b.priority < a.priority) e)
    phaseSizes := update st.phaseSizes e.phase (st.phaseSizes e.phase + 1) }

/-- `addListener`: a new entry under the next token. -/
def addListener (st : Store) (phase : LifecyclePhase) (typeId : Option TypeId)
    (listenerScope : Option NameId) (callback : Wrapper) (priority : ℤ) : Store :=
  (st.reserveToken.insertEntry
    ⟨typeId, listenerScope, callback, priority, st.nextToken, phase⟩).rebuildView

/-- `addListenerDeferred`: a new entry under a token reserved before; the view stays. -/
def addListenerDeferred (st : Store) (phase : LifecyclePhase) (typeId : Option TypeId)
    (listenerScope : Option NameId) (callback : Wrapper) (priority : ℤ) (token : ℕ) : Store :=
  st.insertEntry ⟨typeId, listenerScope, callback, priority, token, phase⟩

/-- `finalizeListeners`: publish the entries inserted so far. -/
def finalizeListeners (st : Store) : Store := st.rebuildView

/-- The phases by their index. -/
def phaseOrder : List LifecyclePhase := [.initialized, .created, .preDestroy, .destroyed]

/-- `removeByToken`: erase the first entry with the token, if there is one. -/
def removeByToken (st : Store) (token : ℕ) : Store :=
  match phaseOrder.find? fun p => (st.phases p).any (·.token = token) with
  | none => st
  | some p =>
    { st with
      phases := update st.phases p ((st.phases p).eraseP (·.token = token))
      phaseSizes := update st.phaseSizes p (st.phaseSizes p - 1) }.rebuildView

/-- The comparison of the two-pointer merge of `dispatchFromView_`: the type-agnostic
    listener comes before the typed one. -/
def globalFirst (g t : ViewEntry) : Bool :=
  g.priority > t.priority || g.priority = t.priority && g.token < t.token

/-- `dispatchFromView_`: the entries that are called for an event, in this order. -/
def dispatchFromView (pv : PhaseView) (e : Event) : List ViewEntry :=
  (pv.global.merge (pv.typed e.beanTypeId) globalFirst).filter fun ve =>
    ve.listenerScope = none || ve.listenerScope = e.emitterScope

/-- `dispatch`: the entries that are called for an event, in this order. -/
def dispatch (st : Store) (e : Event) : List ViewEntry :=
  if st.phaseSizes e.phase = 0 then [] else
    match st.view with
    | none => []
    | some view => dispatchFromView (view e.phase) e

/-- The listeners whose user callback is invoked for an event, in this order. -/
def invoked (st : Store) (e : Event) : List ViewEntry :=
  (st.dispatch e).filter fun ve => ve.callback.forwards e

end Store

/-! ## Contexts and handles -/

/-- An element of `deferredListeners_`. -/
structure DeferredListener where
  phase : LifecyclePhase
  listenerScope : Option NameId
  callback : Wrapper
  priority : ℤ
  token : ℕ
  deriving DecidableEq, Repr

/-- A `ListenerHandle` object: whether `store_` is still set, and the token. -/
structure ListenerHandle where
  attached : Bool
  token : ℕ
  deriving DecidableEq, Repr

/-- The listeners of a root context and of its scopes, and the handles of the user. -/
structure State where
  started : Bool := false
  /-- The scopes of the root context. -/
  scopes : List NameId := []
  /-- The `deferredListeners_` of each context. -/
  deferred : ContextId → List DeferredListener := fun _ => []
  store : Store := {}
  handles : List ListenerHandle := []
  /-- The contexts whose deferred listeners a `start()` in progress has yet to insert. -/
  starting : Option (List ContextId) := none

/-- The calls that concern listeners, and the steps of `start()`. -/
inductive Action
  /-- `resolveScope`. -/
  | resolveScope (name : NameId)
  /-- `on<T>` or `on`, on a context, with a phase, a callback and a priority. -/
  | on (context : ContextId) (type : Option CppType) (phase : LifecyclePhase) (callback : ℕ)
      (priority : ℤ)
  /-- Copy the handle at a position. -/
  | copyHandle (i : ℕ)
  /-- `remove` of the handle at a position, on the handle or on a context. -/
  | remove (i : ℕ)
  /-- `start()` has published `started_`; the map of the scopes iterates in this order. -/
  | start (order : List NameId)
  /-- `flushDeferredListeners_` of the next context. -/
  | flush
  /-- `start()` has returned. -/
  | completeStart
  /-- `start()` fails in user code. -/
  | rollbackFailedStart
  deriving DecidableEq, Repr

namespace State

/-- The contexts: the root and its scopes. -/
def HasContext (s : State) (c : ContextId) : Prop :=
  match c with
  | none => True
  | some name => name ∈ s.scopes

instance (s : State) (c : ContextId) : Decidable (s.HasContext c) := by
  unfold HasContext
  split <;> infer_instance

/-- `on` that goes to the store at once. -/
def onDirect (s : State) (c : ContextId) (type : Option CppType) (phase : LifecyclePhase)
    (callback : ℕ) (priority : ℤ) : State :=
  { s with
    store := s.store.addListener phase none c ⟨type, callback⟩ priority
    handles := s.handles ++ [⟨true, s.store.nextToken⟩] }

/-- `on<T>` before the start: reserve a token and defer the insertion. -/
def onDeferred (s : State) (c : ContextId) (type : CppType) (phase : LifecyclePhase)
    (callback : ℕ) (priority : ℤ) : State :=
  { s with
    deferred := update s.deferred c
      (s.deferred c ++ [⟨phase, c, ⟨some type, callback⟩, priority, s.store.nextToken⟩])
    store := s.store.reserveToken
    handles := s.handles ++ [⟨true, s.store.nextToken⟩] }

/-- `BeanContext::on`. -/
def on (s : State) (c : ContextId) (type : Option CppType) (phase : LifecyclePhase)
    (callback : ℕ) (priority : ℤ) : State :=
  match s.started, type with
  | false, some t => s.onDeferred c t phase callback priority
  | _, _ => s.onDirect c type phase callback priority

/-- `ListenerHandle::remove` of the handle at a position. -/
def remove (s : State) (i : ℕ) (h : ListenerHandle) : State :=
  if h.attached then
    { s with
      store := s.store.removeByToken h.token
      handles := s.handles.set i { h with attached := false } }
  else s

/-- `flushDeferredListeners_` of a context. -/
def flushDeferredListeners (s : State) (c : ContextId) : State :=
  if s.deferred c = [] then s else
    { s with
      deferred := update s.deferred c []
      store := ((s.deferred c).foldl (fun st d => st.addListenerDeferred d.phase none
        d.listenerScope d.callback d.priority d.token) s.store).finalizeListeners }

/-- The successor of a state under an action. -/
def step (s : State) : Action → Option State
  | .resolveScope name =>
    some (if name ∈ s.scopes then s else { s with scopes := s.scopes ++ [name] })
  | .on c type phase callback priority =>
    if s.HasContext c then some (s.on c type phase callback priority) else none
  | .copyHandle i => (s.handles[i]?).map fun h => { s with handles := s.handles ++ [h] }
  | .remove i => (s.handles[i]?).map (s.remove i)
  | .start order =>
    if s.starting = none ∧ order.Perm s.scopes then
      some { s with started := true, starting := some (none :: order.map some) }
    else none
  | .flush =>
    match s.starting with
    | some (c :: rest) => some { s.flushDeferredListeners c with starting := some rest }
    | _ => none
  | .completeStart => if s.starting = some [] then some { s with starting := none } else none
  | .rollbackFailedStart =>
    if s.starting = some [] then some { s with started := false, starting := none } else none

end State

/-- The machine of the calls that concern listeners. -/
def machine : Machine State Action where
  Init s := s = {}
  step := State.step

end Ctorium.Listeners
