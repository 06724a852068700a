import Ctorium.Lib.Related
import Ctorium.Listeners.Dispatch
import Ctorium.Sessions.Aligned

/-!
# Restarting a scope

A restart of a running scope destroys its instances with code of its own, which keeps
their memory until the next instance of the same descriptor is stored; then it starts
the scope. Listeners, hooks, constructors and destructors are programs of the user,
which may call all these functions again, as deep as the stack allows.

User code sees all but the memory of destroyed instances: it cannot tell what is
retired. `SameButMemory` relates two states that agree in what user code sees and, for
each scope, in the memory that has been either released or retired.

* `exec_respects`: from such states, every call does the same.
* `restart_eq`: a restart does what a stop and a start do.

`Sessions.Programs` shows that a call here is a run of the steps of `Sessions.Bounds`.
-/

namespace Ctorium.Restart

open Attempt (Related Respects)
open Function (update)
open Handles (AnyBean)
open ListenerStore (LifecyclePhase)
open Listeners (Event EventSource ViewEntry)

/-! ## State -/

/-- What is observed of the lives of the beans. -/
inductive Entry
  /-- A callback is invoked for an event. -/
  | callback (phase : LifecyclePhase) (bean : AnyBean) (emitterScope : Option NameId)
      (listener : ViewEntry)
  | constructed (descId : DescriptorId) (mem : Addr)
  | postConstruct (descId : DescriptorId) (mem : Addr)
  | preDestroy (descId : DescriptorId) (mem : Addr)
  | destroy (descId : DescriptorId) (mem : Addr)
  deriving DecidableEq

/-- A root with its scopes, and all else that user code works on. An address stands for one
    instance, and is not used for a second one. -/
structure World (U : Type*) where
  context : BeanContext
  listeners : Listeners.State
  /-- The entries of `materializing_` for session beans. -/
  materializing : List (DescriptorId × ScopeId) := []
  nextAddr : Addr := 0
  trace : List Entry := []
  user : U
  /-- The memory of session instances that has been released, for each scope. -/
  released : ScopeId → List Addr := fun _ => []

/-- The scope with other retired memory. -/
def setRetired (sc : ScopedContext) (blocks : List RetiredSessionBlock) : ScopedContext :=
  { sc with sessionStore := { sc.sessionStore with retiredBlocks := blocks } }

/-- The context without the retired memory of its scopes. -/
def forget (b : BeanContext) : BeanContext :=
  { b with scopes := fun n => setRetired (b.scopes n) [] }

namespace World

variable {U : Type*} (w : World U)

def scope (n : ScopeId) : ScopedContext := w.context.scopes n

def retired (n : ScopeId) : List RetiredSessionBlock := (w.scope n).sessionStore.retiredBlocks

/-- The memory of destroyed instances: what has been released, and what is retired. -/
def memory (n : ScopeId) : List Addr := w.released n ++ (w.retired n).map (·.memory)

/-- The instance that the store of the scope has for a descriptor. -/
def find (n : ScopeId) (d : DescriptorId) : Option Addr :=
  (w.scope n).sessionStore.find (w.context.core.sessionSlotOf d)

/-- What user code sees. -/
def visible : World U := { w with context := forget w.context, released := fun _ => [] }

/-- User code changes what it sees. -/
def act (f : World U → World U) : World U :=
  { f w.visible with
    context := { (f w.visible).context with
      scopes := fun n => setRetired ((f w.visible).scope n) (w.retired n) }
    released := w.released }

def record (e : Entry) : World U := { w with trace := w.trace ++ [e] }

def setScope (n : ScopeId) (sc : ScopedContext) : World U :=
  { w with context := w.context.setScope n sc }

/-- Memory is released. -/
def release (n : ScopeId) (blocks : List Addr) : World U :=
  { w with released := update w.released n (w.released n ++ blocks) }

/-- `SessionStore::releaseRetired`, as it changes the memory that has been released. -/
def releaseRetired (n : ScopeId) (d : DescriptorId) : World U :=
  w.release n (((w.retired n).filter fun block => block.descId == d).map (·.memory))

/-- `SessionStore::store`. -/
def store (n : ScopeId) (psb : PendingRuntimeSession) : World U :=
  (w.releaseRetired n psb.descId).setScope n
    ((w.scope n).storePending (w.context.core.sessionSlotOf psb.descId) psb)

/-- `SessionStore::retireDeallocation`. -/
def retireDeallocation (n : ScopeId) (d : DescriptorId) (mem : Addr) : World U :=
  w.setScope n { w.scope n with
    sessionStore := (w.scope n).sessionStore.retireDeallocation d mem }

/-- `SessionStore::nullSlot`. -/
def nullSlot (n : ScopeId) (slot : Option SessionSlot) : World U :=
  w.setScope n { w.scope n with sessionStore := (w.scope n).sessionStore.nullSlot slot }

/-- The end of `stopScope`: `SessionStore::releaseAll`, and the scope is stopped. -/
def finishStop (n : ScopeId) (deferDeallocation : Bool) : World U :=
  (if deferDeallocation then w else w.release n ((w.retired n).map (·.memory))).setScope n
    ((w.scope n).finishStop deferDeallocation)

/-- An entry of `materializing_` is added, or removed. -/
def claim (n : ScopeId) (p : DescriptorId) : World U :=
  { w with materializing := (p, n) :: w.materializing }

@[inherit_doc claim]
def endClaim (n : ScopeId) (p : DescriptorId) : World U :=
  { w with materializing := w.materializing.erase (p, n) }

/-- The constructor has returned: the instance is at a new address, and is stored. -/
def constructed (n : ScopeId) (p : DescriptorId) : World U :=
  (({ w with nextAddr := w.nextAddr + 1 }.record (.constructed p w.nextAddr)).store n
    ⟨p, w.nextAddr⟩).endClaim n p

end World

/-! ## User code -/

/-- The calls of user code that begin or end the lives of session beans. `dispatch` stands for
    the events of all other beans. -/
inductive Call
  | startScope (n : ScopeId)
  | stopScope (n : ScopeId)
  | restartScope (n : ScopeId)
  | bindSession (n : ScopeId) (type : CppType) (name : String) (priority : ℤ) (object : Addr)
  | materializeSession (n : ScopeId) (p : DescriptorId)
  | dispatch (e : Event) (bean : AnyBean)

/-- A program of the user. -/
inductive Program (U : Type*)
  | done
  | throws (e : Failure)
  /-- It goes on as what it sees tells it. -/
  | look (k : World U → Program U)
  /-- It changes what it sees, by other calls and by code of its own. -/
  | act (f : World U → World U) (k : Program U)
  /-- A call, and what follows if it returns or throws. -/
  | call (c : Call) (k : Option Failure → Program U)

/-- The end of a computation that does not return. -/
inductive Stop
  | exception (e : Failure)
  /-- An exception has left a function that is `noexcept`. -/
  | terminate
  | stackOverflow
  deriving DecidableEq, Repr

/-- The boundary of a function that is `noexcept`. -/
def Stop.escape : Stop → Stop
  | .exception _ => .terminate
  | s => s

abbrev Outcome (U : Type*) := Attempt Stop (World U)

/-- The program runs; `call` performs its calls. -/
def Program.eval {U : Type*} (call : Call → World U → Outcome U) :
    Program U → World U → Outcome U
  | .done, w => .ok w
  | .throws e, w => .fail w (.exception e)
  | .look k, w => (k w.visible).eval call w
  | .act f k, w => k.eval call (w.act f)
  | .call c k, w =>
    match (call c w).failure with
    | none => (k none).eval call (call c w).state
    | some (.exception e) => (k (some e)).eval call (call c w).state
    | some s => .fail (call c w).state s

/-- What a descriptor says about its beans. -/
structure Cold (U : Type*) extends EventSource where
  construct : Program U
  postConstruct : Option (Addr → Program U)
  preDestroy : Option (Addr → Program U)
  destroy : Addr → Program U

/-- The code of the user: the thunks of the descriptors, and the callbacks by their number. -/
structure Code (U : Type*) where
  coldAt : Registry → DescriptorId → Cold U
  callback : ℕ → Event → AnyBean → Program U

/-! ## Code -/

section Functions

variable {U : Type*} (P : Code U) (call : Call → World U → Outcome U)

def World.coldAt (w : World U) (d : DescriptorId) : Cold U := P.coldAt w.context.core d

/-- A callback is invoked. -/
def invoke (e : Event) (bean : AnyBean) (w : World U) (ve : ViewEntry) : Outcome U :=
  (P.callback ve.callback.callback e bean).eval call
    (w.record (.callback e.phase bean e.emitterScope ve))

/-- `dispatch`. -/
def dispatch (e : Event) (bean : AnyBean) (w : World U) : Outcome U :=
  Attempt.forEach (invoke P call e bean) (w.listeners.store.invoked e) w

/-- A hook of a descriptor, which may be null. -/
def runHook (hook : Option (Addr → Program U)) (e : Entry) (mem : Addr) (w : World U) :
    Outcome U :=
  match hook with
  | none => .ok w
  | some f => (f mem).eval call (w.record e)

/-- The destructor. -/
def runDestroy (cold : Cold U) (d : DescriptorId) (mem : Addr) (w : World U) : Outcome U :=
  (cold.destroy mem).eval call (w.record (.destroy d mem))

/-- `Registry::executeDestructionLifecycle`. -/
def executeDestructionLifecycle (d : DescriptorId) (mem : Addr) (emitterScope : Option NameId)
    (w : World U) : Outcome U :=
  let cold := w.coldAt P d
  let dispatchPreDestroy := w.listeners.store.hasListeners .preDestroy
  let dispatchDestroyed := w.listeners.store.hasListeners .destroyed
  let destroyed :=
    if dispatchPreDestroy || dispatchDestroyed then
      let anyBean : AnyBean := match emitterScope with
        | some n => ⟨none, d, n⟩
        | none => ⟨some mem, d, kUnnamed⟩
      (((if dispatchPreDestroy then dispatch P call (cold.event .preDestroy emitterScope) anyBean w
        else .ok w).andThen
          (runHook call cold.preDestroy (.preDestroy d mem) mem)).andThen fun w =>
            if dispatchDestroyed then
              dispatch P call (cold.event .destroyed emitterScope) anyBean w
            else .ok w).andThen
              (runDestroy call cold d mem)
    else (runHook call cold.preDestroy (.preDestroy d mem) mem w).andThen
      (runDestroy call cold d mem)
  (destroyed.andThen fun w => .ok <| match emitterScope with
    | some n => w.release n [mem]
    | none => w).mapFailure Stop.escape

/-- `destroyWithoutDeallocation` in `Registry::stopScope`. -/
def destroyWithoutDeallocation (n : ScopeId) (d : DescriptorId) (mem : Addr) (cold : Cold U)
    (w : World U) : Outcome U :=
  let dispatchPreDestroy := w.listeners.store.hasListeners .preDestroy
  let dispatchDestroyed := w.listeners.store.hasListeners .destroyed
  let destroyed :=
    if dispatchPreDestroy || dispatchDestroyed then
      let anyBean : AnyBean := ⟨none, d, n⟩
      (((if dispatchPreDestroy then dispatch P call (cold.event .preDestroy (some n)) anyBean w
        else .ok w).andThen
          (runHook call cold.preDestroy (.preDestroy d mem) mem)).andThen fun w =>
            if dispatchDestroyed then dispatch P call (cold.event .destroyed (some n)) anyBean w
            else .ok w).andThen
              (runDestroy call cold d mem)
    else (runHook call cold.preDestroy (.preDestroy d mem) mem w).andThen
      (runDestroy call cold d mem)
  destroyed.mapFailure Stop.escape

/-- One instance of the sweep of `stopScope`. -/
def sweepNext (n : ScopeId) (deferDeallocation : Bool) (w : World U) (d : DescriptorId) :
    Outcome U :=
  let slot := w.context.core.sessionSlotOf d
  match (w.scope n).sessionStore.find slot with
  | none => .ok w
  | some mem =>
    (if deferDeallocation then
      (destroyWithoutDeallocation P call n d mem (w.coldAt P d) w).andThen fun w =>
        .ok (w.retireDeallocation n d mem)
    else executeDestructionLifecycle P call d mem (some n) w).andThen fun w =>
      .ok (w.nullSlot n slot)

/-- `Registry::stopScope`. -/
def stopScope (n : ScopeId) (deferDeallocation : Bool) (w : World U) : Outcome U :=
  ((Attempt.forEach (sweepNext P call n deferDeallocation)
    (w.scope n).sessionStore.insertionOrder.reverse
      (w.setScope n (w.scope n).beginStop)).andThen fun w =>
        .ok (w.finishStop n deferDeallocation)).mapFailure Stop.escape

/-- The creation events of a bound instance. -/
def announceBound (n : ScopeId) (d : DescriptorId) (mem : Addr) (w : World U) : Outcome U :=
  let anyBean : AnyBean := ⟨some mem, d, kUnnamed⟩
  (dispatch P call ((w.coldAt P d).event .initialized (some n)) anyBean w).andThen
    (dispatch P call ((w.coldAt P d).event .created (some n)) anyBean)

/-- `ScopedContext::start`. A callback that binds on the scope invalidates the iterator of the
    loop, so the loop is over the bindings that were pending when it began. -/
def start (n : ScopeId) (w : World U) : Outcome U :=
  if !w.context.core.started then
    .fail w (.exception (.contextStateError ("ScopedContext::start: the root registry must be " ++
      "started before a scope can start.")))
  else match (w.scope n).scopeState with
    | .running => .ok w
    | .stopping => .fail w (.exception (.contextStateError
        "ScopedContext::start: cannot start a scope that is being stopped."))
    | .stopped =>
      (Attempt.forEach (fun w psb => announceBound P call n psb.descId psb.boundInstance
        (w.store n psb)) (w.scope n).pendingRuntimeSessions
          (w.setScope n ((w.scope n).beginStart w.context.core.sessionSlotCount))).andThen
            fun w => .ok (w.setScope n (w.scope n).finishStart)

/-- `ScopedContext::stop`. -/
def stop (n : ScopeId) (w : World U) : Outcome U :=
  if (w.scope n).scopeState ≠ .running then .ok w else stopScope P call n false w

/-- `ScopedContext::restart`. -/
def restart (n : ScopeId) (w : World U) : Outcome U :=
  (if (w.scope n).scopeState = .running then stopScope P call n true w
    else stop P call n w).andThen (start P call n)

/-- The descriptor that a binding uses. -/
def World.boundDescriptor (w : World U) (type : CppType) (name : String) (priority : ℤ) :
    DescriptorId := (Sessions.boundSession w.context type name priority).1

/-- The part of a binding that holds the write lock. -/
def World.bind (w : World U) (n : ScopeId) (type : CppType) (name : String) (priority : ℤ)
    (object : Addr) : World U :=
  let bound := w.context.bindSession n type name priority object
  { (if bound.failure = none ∧ (w.scope n).scopeState = .running then
      w.releaseRetired n (w.boundDescriptor type name priority) else w) with
    context := bound.state }

/-- `ScopedContext::bindSession`. -/
def bindSession (n : ScopeId) (type : CppType) (name : String) (priority : ℤ) (object : Addr)
    (w : World U) : Outcome U :=
  match (w.context.bindSession n type name priority object).failure with
  | some e => .fail (w.bind n type name priority object) (.exception e)
  | none =>
    if (w.scope n).scopeState ≠ .running then .ok (w.bind n type name priority object)
    else announceBound P call n (w.boundDescriptor type name priority) object
      (w.bind n type name priority object)

/-- `Registry::materializeSessionInstance`, for a primary, on one thread. -/
def materializeSessionInstance (n : ScopeId) (p : DescriptorId) (w : World U) : Outcome U :=
  if (w.find n p).isSome then .ok w
  else if (w.scope n).scopeState = .stopping then .fail w (.exception (.contextStateError
    ("Registry::materializeSessionInstance: cannot materialize a new session bean during " ++
      "scope teardown.")))
  else if w.context.core.descriptors[p]?.any fun desc => desc.origin == .runtimeBinding then
    .fail w (.exception Wiring.sessionNotBound)
  else if (p, n) ∈ w.materializing then .fail w (.exception Wiring.sessionCycle)
  else
    let cold := w.coldAt P p
    let anyBean : AnyBean := ⟨none, p, n⟩
    ((cold.construct.eval call (w.claim n p)).rethrow fun w => w.endClaim n p).andThen fun w =>
      ((dispatch P call (cold.event .initialized (some n)) anyBean (w.constructed n p)).andThen
        (runHook call cold.postConstruct (.postConstruct p w.nextAddr) w.nextAddr)).andThen
          (dispatch P call (cold.event .created (some n)) anyBean)

end Functions

/-- A call, with user code that calls again. The stack allows for a number of calls that are under
    way at a time. -/
def exec {U : Type*} (P : Code U) : ℕ → Call → World U → Outcome U
  | 0, _, w => .fail w .stackOverflow
  | depth + 1, .startScope n, w => start P (exec P depth) n w
  | depth + 1, .stopScope n, w => stop P (exec P depth) n w
  | depth + 1, .restartScope n, w => restart P (exec P depth) n w
  | depth + 1, .bindSession n type name priority object, w =>
    bindSession P (exec P depth) n type name priority object w
  | depth + 1, .materializeSession n p, w => materializeSessionInstance P (exec P depth) n p w
  | depth + 1, .dispatch e bean, w => dispatch P (exec P depth) e bean w

/-! ## What user code sees -/

section Visible

variable {U : Type*} {w w' : World U} {n : ScopeId}

/-- The same for user code, and the same memory of destroyed instances, whether it has been
    released or is retired. -/
structure SameButMemory (w w' : World U) : Prop where
  visible : w.visible = w'.visible
  memory : ∀ n, (w.memory n).Perm (w'.memory n)

theorem SameButMemory.refl (w : World U) : SameButMemory w w := ⟨rfl, fun _ => .refl _⟩

theorem find_setRetired (sc : ScopedContext) (blocks : List RetiredSessionBlock)
    (slot : Option SessionSlot) :
    (setRetired sc blocks).sessionStore.find slot = sc.sessionStore.find slot := by
  cases slot <;> rfl

namespace SameButMemory

variable (h : SameButMemory w w')

include h

theorem context_core : w.context.core = w'.context.core :=
  (congrArg (fun v : World U => v.context.core) h.visible :)

theorem listeners : w.listeners = w'.listeners := (congrArg World.listeners h.visible :)

theorem materializing : w.materializing = w'.materializing :=
  (congrArg World.materializing h.visible :)

theorem nextAddr : w.nextAddr = w'.nextAddr := (congrArg World.nextAddr h.visible :)

theorem trace : w.trace = w'.trace := (congrArg World.trace h.visible :)

theorem scope (n : ScopeId) : setRetired (w.scope n) [] = setRetired (w'.scope n) [] :=
  (congrArg (fun v : World U => v.scope n) h.visible :)

theorem scopeState (n : ScopeId) : (w.scope n).scopeState = (w'.scope n).scopeState :=
  (congrArg ScopedContext.scopeState (h.scope n) :)

theorem pendingRuntimeSessions (n : ScopeId) :
    (w.scope n).pendingRuntimeSessions = (w'.scope n).pendingRuntimeSessions :=
  (congrArg ScopedContext.pendingRuntimeSessions (h.scope n) :)

theorem insertionOrder (n : ScopeId) :
    (w.scope n).sessionStore.insertionOrder = (w'.scope n).sessionStore.insertionOrder :=
  (congrArg (fun sc : ScopedContext => sc.sessionStore.insertionOrder) (h.scope n) :)

theorem findSlot (n : ScopeId) (slot : Option SessionSlot) :
    (w.scope n).sessionStore.find slot = (w'.scope n).sessionStore.find slot := by
  rw [← find_setRetired (w.scope n) [], h.scope n, find_setRetired]

theorem find (n : ScopeId) (d : DescriptorId) : w.find n d = w'.find n d := by
  rw [World.find, World.find, h.context_core, h.findSlot n]

theorem coldAt (P : Code U) (d : DescriptorId) : w.coldAt P d = w'.coldAt P d := by
  rw [World.coldAt, World.coldAt, h.context_core]

end SameButMemory

/-! ## Changes of the state -/

theorem forget_setScope (b : BeanContext) (n : ScopeId) (sc : ScopedContext) :
    forget (b.setScope n sc) = (forget b).setScope n (setRetired sc []) := by
  have hscopes : (fun m => setRetired (update b.scopes n sc m) []) =
      update (fun m => setRetired (b.scopes m) []) n (setRetired sc []) := by
    funext m
    rcases eq_or_ne m n with rfl | hmn
    · simp
    · simp [hmn]
  simp only [forget, BeanContext.setScope, hscopes]

theorem World.visible_setScope (w : World U) (n : ScopeId) (sc : ScopedContext) :
    (w.setScope n sc).visible = w.visible.setScope n (setRetired sc []) :=
  congrArg (fun b : BeanContext => { w with context := b, released := fun _ => [] })
    (forget_setScope w.context n sc)

theorem World.memory_setScope (w : World U) (n : ScopeId) (sc : ScopedContext) (m : ScopeId) :
    (w.setScope n sc).memory m = if m = n then
      w.released n ++ sc.sessionStore.retiredBlocks.map (·.memory) else w.memory m := by
  rcases eq_or_ne m n with rfl | hmn
  · simp [World.memory, World.retired, World.scope, World.setScope, BeanContext.setScope]
  · simp [World.memory, World.retired, World.scope, World.setScope, BeanContext.setScope, hmn]

/-- Two changes that show the same to user code, and keep the memory of destroyed instances. -/
theorem SameButMemory.keep (h : SameButMemory w w') {v v' : World U} (f : World U → World U)
    (hv : v.visible = f w.visible) (hv' : v'.visible = f w'.visible)
    (hm : ∀ m, (v.memory m).Perm (w.memory m)) (hm' : ∀ m, (v'.memory m).Perm (w'.memory m)) :
    SameButMemory v v' where
  visible := by rw [hv, hv', h.visible]
  memory m := (hm m).trans ((h.memory m).trans (hm' m).symm)

/-- A scope changes, and keeps its retired memory. -/
theorem SameButMemory.setScope (h : SameButMemory w w') {sc sc' : ScopedContext}
    (hsc : setRetired sc [] = setRetired sc' [])
    (hkeep : sc.sessionStore.retiredBlocks = w.retired n)
    (hkeep' : sc'.sessionStore.retiredBlocks = w'.retired n) :
    SameButMemory (w.setScope n sc) (w'.setScope n sc') where
  visible := by rw [World.visible_setScope, World.visible_setScope, h.visible, hsc]
  memory m := by
    rw [World.memory_setScope, World.memory_setScope, hkeep, hkeep']
    split_ifs with hmn
    · exact h.memory n
    · exact h.memory m

theorem SameButMemory.record (h : SameButMemory w w') (e : Entry) :
    SameButMemory (w.record e) (w'.record e) where
  visible := (congrArg (fun v : World U => v.record e) h.visible :)
  memory := h.memory

/-- What user code does depends on what it sees. -/
theorem SameButMemory.act (h : SameButMemory w w') (f : World U → World U) :
    SameButMemory (w.act f) (w'.act f) where
  visible := (congrArg (fun v : World U => (f v).visible) h.visible :)
  memory := h.memory

theorem SameButMemory.nullSlot (h : SameButMemory w w') (n : ScopeId) (slot : Option SessionSlot) :
    SameButMemory (w.nullSlot n slot) (w'.nullSlot n slot) := by
  have hnull (sc : ScopedContext) :
      setRetired { sc with sessionStore := sc.sessionStore.nullSlot slot } [] =
        { setRetired sc [] with
          sessionStore := (setRetired sc []).sessionStore.nullSlot slot } := by
    cases slot <;> rfl
  have hkeep (ss : SessionStore) : (ss.nullSlot slot).retiredBlocks = ss.retiredBlocks := by
    cases slot <;> rfl
  refine h.setScope ?_ (hkeep _) (hkeep _)
  rw [hnull, hnull, h.scope n]

/-- Releasing the retired memory of a descriptor does not change what there is of both kinds. -/
theorem World.memory_releaseRetired (w : World U) {sc : ScopedContext} {d : DescriptorId}
    (hsc : sc.sessionStore.retiredBlocks =
      (w.retired n).filter fun block => block.descId != d) (m : ScopeId) :
    (((w.releaseRetired n d).setScope n sc).memory m).Perm (w.memory m) := by
  rw [World.memory_setScope]
  split_ifs with hmn
  · obtain rfl := hmn
    have hsplit := List.filter_append_perm (fun block => block.descId == d) (w.retired m)
    have hmap := (hsplit.map (·.memory)).append_left (w.released m)
    simpa [World.memory, World.releaseRetired, World.release, hsc, bne] using hmap
  · simp [World.memory, World.releaseRetired, World.release, World.retired, World.scope, hmn]

theorem World.memory_store (w : World U) (n : ScopeId) (psb : PendingRuntimeSession) (m : ScopeId) :
    ((w.store n psb).memory m).Perm (w.memory m) :=
  w.memory_releaseRetired rfl m

theorem SameButMemory.store (h : SameButMemory w w') (n : ScopeId) (psb : PendingRuntimeSession) :
    SameButMemory (w.store n psb) (w'.store n psb) :=
  h.keep (fun v => v.setScope n
      ((v.scope n).storePending (v.context.core.sessionSlotOf psb.descId) psb))
    (World.visible_setScope _ n _) (World.visible_setScope _ n _)
    (w.memory_store n psb) (w'.memory_store n psb)

/-- What becomes of the memory of a destroyed instance. -/
def World.dispose (w : World U) (n : ScopeId) (d : DescriptorId) (mem : Addr) :
    (deferDeallocation : Bool) → World U
  | true => w.retireDeallocation n d mem
  | false => w.release n [mem]

theorem World.visible_dispose (w : World U) (n : ScopeId) (d : DescriptorId) (mem : Addr)
    (deferDeallocation : Bool) :
    (w.dispose n d mem deferDeallocation).visible = w.visible := by
  cases deferDeallocation with
  | false => rfl
  | true =>
    refine (World.visible_setScope w n _).trans ?_
    exact congrArg (fun scopes => { w.visible with context := { w.visible.context with
      scopes := scopes } }) (Function.update_eq_self n _)

theorem World.memory_dispose (w : World U) (n : ScopeId) (d : DescriptorId) (mem : Addr)
    (deferDeallocation : Bool) (m : ScopeId) :
    ((w.dispose n d mem deferDeallocation).memory m).Perm
      (w.memory m ++ if m = n then [mem] else []) := by
  rcases eq_or_ne m n with rfl | hmn
  · cases deferDeallocation with
    | false =>
      simp only [World.dispose, World.memory, World.release, World.retired, World.scope,
        Function.update_self, if_true, List.append_assoc]
      exact List.perm_append_comm.append_left _
    | true =>
      rw [World.dispose, World.retireDeallocation, World.memory_setScope, if_pos rfl]
      simp [World.memory, World.retired, SessionStore.retireDeallocation]
  · cases deferDeallocation with
    | false =>
      simp [World.dispose, World.memory, World.release, World.retired, World.scope, hmn]
    | true => simp [World.dispose, World.retireDeallocation, World.memory_setScope, hmn]

theorem SameButMemory.dispose (h : SameButMemory w w') (n : ScopeId) (d : DescriptorId)
    (mem : Addr) (b b' : Bool) :
    SameButMemory (w.dispose n d mem b) (w'.dispose n d mem b') where
  visible := by rw [World.visible_dispose, World.visible_dispose, h.visible]
  memory m := by
    have hadded := (h.memory m).append_right (if m = n then [mem] else [])
    exact (w.memory_dispose n d mem b m).trans
      (hadded.trans (w'.memory_dispose n d mem b' m).symm)

theorem World.visible_finishStop (w : World U) (n : ScopeId) (b : Bool) :
    (w.finishStop n b).visible = w.visible.setScope n ((w.visible.scope n).finishStop false) := by
  cases b <;> exact World.visible_setScope _ n _

theorem World.memory_finishStop (w : World U) (n : ScopeId) (b : Bool) (m : ScopeId) :
    (w.finishStop n b).memory m = w.memory m := by
  rcases eq_or_ne m n with rfl | hmn
  · cases b with
    | false =>
      rw [World.finishStop, World.memory_setScope, if_pos rfl]
      simp [World.memory, World.release, ScopedContext.finishStop, SessionStore.releaseAll]
    | true =>
      rw [World.finishStop, World.memory_setScope, if_pos rfl]
      rfl
  · cases b with
    | false =>
      rw [World.finishStop, World.memory_setScope, if_neg hmn]
      simp [World.memory, World.release, World.retired, World.scope, hmn]
    | true => rw [World.finishStop, World.memory_setScope, if_neg hmn, if_pos rfl]

theorem SameButMemory.finishStop (h : SameButMemory w w') (n : ScopeId) (b b' : Bool) :
    SameButMemory (w.finishStop n b) (w'.finishStop n b') :=
  h.keep (fun v => v.setScope n ((v.scope n).finishStop false))
    (w.visible_finishStop n b) (w'.visible_finishStop n b')
    (fun m => .of_eq (w.memory_finishStop n b m)) (fun m => .of_eq (w'.memory_finishStop n b' m))

theorem SameButMemory.claim (h : SameButMemory w w') (n : ScopeId) (p : DescriptorId) :
    SameButMemory (w.claim n p) (w'.claim n p) where
  visible := (congrArg (fun v : World U => v.claim n p) h.visible :)
  memory := h.memory

theorem SameButMemory.endClaim (h : SameButMemory w w') (n : ScopeId) (p : DescriptorId) :
    SameButMemory (w.endClaim n p) (w'.endClaim n p) where
  visible := (congrArg (fun v : World U => v.endClaim n p) h.visible :)
  memory := h.memory

theorem SameButMemory.constructed (h : SameButMemory w w') (n : ScopeId) (p : DescriptorId) :
    SameButMemory (w.constructed n p) (w'.constructed n p) := by
  have haddr (a : Addr) : SameButMemory { w with nextAddr := a } { w' with nextAddr := a } :=
    ⟨(congrArg (fun v : World U => { v with nextAddr := a }) h.visible :), h.memory⟩
  rw [World.constructed, World.constructed, h.nextAddr]
  exact (((haddr _).record _).store n _).endClaim n p

/-! ## Binding on a scope -/

theorem placeSession_forget (b : BeanContext) (n : ScopeId) (d : DescriptorId) (object : Addr) :
    (forget b).placeSession n d object =
      ⟨forget (b.placeSession n d object).state, (b.placeSession n d object).failure⟩ := by
  have hfind : ((forget b).scopes n).sessionStore.find (b.core.sessionSlotOf d) =
      (b.scopes n).sessionStore.find (b.core.sessionSlotOf d) := find_setRetired _ _ _
  simp only [BeanContext.placeSession]
  change (if (b.scopes n).pendingRuntimeSessions.any _ then _ else
    if (b.scopes n).scopeState ≠ .running then _ else
      if (((forget b).scopes n).sessionStore.find (b.core.sessionSlotOf d)).isSome then _
      else _) = _
  rw [hfind]
  split_ifs
  · rfl
  · rw [Attempt.ok_state, forget_setScope]
    rfl
  · rfl
  · rw [Attempt.ok_state, forget_setScope]
    rfl

/-- Binding a session instance depends on what user code sees. -/
theorem bindSession_forget (b : BeanContext) (n : ScopeId) (type : CppType) (name : String)
    (priority : ℤ) (object : Addr) : (forget b).bindSession n type name priority object =
      ⟨forget (b.bindSession n type name priority object).state,
        (b.bindSession n type name priority object).failure⟩ := by
  simp only [BeanContext.bindSession]
  split_ifs with htype hforget hpending hpending
  · rfl
  · rfl
  · exact absurd hforget hpending
  · exact absurd hpending hforget
  · exact placeSession_forget (b.withCore (Sessions.boundSession b type name priority).2) n
      (Sessions.boundSession b type name priority).1 object

theorem SameButMemory.forget_eq (h : SameButMemory w w') : forget w.context = forget w'.context :=
  congrArg World.context h.visible

/-- What a binding does to the memory that a scope retains. -/
theorem bindSession_retired (b : BeanContext) (n : ScopeId) (type : CppType) (name : String)
    (priority : ℤ) (object : Addr) :
    (∃ core e, b.bindSession n type name priority object = .fail (b.withCore core) e) ∨
    ∃ core sc, b.bindSession n type name priority object = .ok ((b.withCore core).setScope n sc) ∧
      sc.sessionStore.retiredBlocks = if (b.scopes n).scopeState = .running then
        (b.scopes n).sessionStore.retiredBlocks.filter fun block =>
          block.descId != (Sessions.boundSession b type name priority).1
      else (b.scopes n).sessionStore.retiredBlocks := by
  rcases Sessions.bindSession_cases b n type name priority object with
    ⟨e, core, hfail, -⟩ | hplace
  · exact .inl ⟨core, e, hfail⟩
  · rw [hplace]
    rcases Sessions.placeSession_cases _ n _ object with
      ⟨e, hfail⟩ | ⟨-, ⟨hstate, hok⟩ | ⟨hstate, -, hok⟩⟩
    · exact .inl ⟨_, e, hfail⟩
    · exact .inr ⟨_, _, hok, (if_neg hstate).symm⟩
    · exact .inr ⟨_, _, hok, (if_pos hstate).symm⟩

theorem World.visible_bind (w : World U) (n : ScopeId) (type : CppType) (name : String)
    (priority : ℤ) (object : Addr) : (w.bind n type name priority object).visible =
      { w.visible with
        context := (w.visible.context.bindSession n type name priority object).state } := by
  have hcontext := congrArg Attempt.state
    (bindSession_forget w.context n type name priority object)
  change _ = { w.visible with
    context := ((forget w.context).bindSession n type name priority object).state }
  rw [hcontext, World.bind]
  split_ifs <;> rfl

theorem World.memory_bind (w : World U) (n : ScopeId) (type : CppType) (name : String)
    (priority : ℤ) (object : Addr) (m : ScopeId) :
    ((w.bind n type name priority object).memory m).Perm (w.memory m) := by
  rw [World.bind]
  rcases bindSession_retired w.context n type name priority object with
    ⟨core, e, hfail⟩ | ⟨core, sc, hok, hsc⟩
  · rw [hfail, if_neg fun h => nomatch h.1]
    exact .refl _
  · rw [hok]
    by_cases hrunning : (w.scope n).scopeState = .running
    · rw [if_pos ⟨rfl, hrunning⟩]
      exact ({ w with context := w.context.withCore core } : World U).memory_releaseRetired
        (hsc.trans (if_pos hrunning)) m
    · rw [if_neg fun h => hrunning h.2]
      have hkept := ({ w with context := w.context.withCore core } : World U).memory_setScope n sc m
      rw [hsc.trans (if_neg hrunning)] at hkept
      refine .of_eq (hkept.trans ?_)
      split_ifs with hmn
      · rw [hmn]
        rfl
      · rfl

theorem SameButMemory.bind (h : SameButMemory w w') (n : ScopeId) (type : CppType) (name : String)
    (priority : ℤ) (object : Addr) : SameButMemory (w.bind n type name priority object)
      (w'.bind n type name priority object) :=
  h.keep (fun v => { v with
      context := (v.context.bindSession n type name priority object).state })
    (w.visible_bind n type name priority object) (w'.visible_bind n type name priority object)
    (w.memory_bind n type name priority object) (w'.memory_bind n type name priority object)

theorem SameButMemory.bindSession_failure (h : SameButMemory w w') (n : ScopeId) (type : CppType)
    (name : String) (priority : ℤ) (object : Addr) :
    (w.context.bindSession n type name priority object).failure =
      (w'.context.bindSession n type name priority object).failure := by
  have hforget (b : BeanContext) : (b.bindSession n type name priority object).failure =
      ((forget b).bindSession n type name priority object).failure := by rw [bindSession_forget]
  rw [hforget, hforget w'.context, h.forget_eq]

theorem SameButMemory.boundDescriptor (h : SameButMemory w w') (type : CppType) (name : String)
    (priority : ℤ) :
    w.boundDescriptor type name priority = w'.boundDescriptor type name priority := by
  rw [World.boundDescriptor, World.boundDescriptor, Sessions.boundSession, Sessions.boundSession,
    h.context_core]

end Visible

/-! ## Every call does the same -/

section Respects

variable {U : Type*} {P : Code U} {call : Call → World U → Outcome U} {w w' : World U}
  {n : ScopeId} {d : DescriptorId} {mem : Addr}

theorem eval_respects (hcall : ∀ c, Respects SameButMemory (call c)) (p : Program U) :
    Respects SameButMemory (p.eval call) := by
  induction p with
  | done => exact fun w w' h => .ok h
  | throws e => exact fun w w' h => .fail h _
  | look k ih =>
    intro w w' h
    rw [Program.eval, Program.eval, h.visible]
    exact ih w'.visible w w' h
  | act f k ih => exact fun w w' h => ih _ _ (h.act f)
  | call c k ih =>
    intro w w' h
    have hc := hcall c w w' h
    rw [Program.eval, Program.eval, hc.failure]
    cases (call c w').failure with
    | none => exact ih none _ _ hc.state
    | some s =>
      cases s with
      | exception e => exact ih (some e) _ _ hc.state
      | terminate => exact .fail hc.state _
      | stackOverflow => exact .fail hc.state _

variable (hcall : ∀ c, Respects SameButMemory (call c))

include hcall

theorem dispatch_respects (e : Event) (bean : AnyBean) :
    Respects SameButMemory (dispatch P call e bean) := by
  intro w w' h
  rw [dispatch, dispatch, h.listeners]
  refine Related.forEach (fun ve _ v v' hv => ?_) h
  exact eval_respects hcall _ _ _ (hv.record _)

/-- A phase that is dispatched if it has had listeners. -/
theorem dispatchIf_respects (b : Bool) (e : Event) (bean : AnyBean) :
    Respects SameButMemory fun w => if b then dispatch P call e bean w else .ok w := by
  intro w w' h
  cases b with
  | true => exact dispatch_respects hcall e bean w w' h
  | false => exact .ok h

theorem runHook_respects (hook : Option (Addr → Program U)) (e : Entry) (mem : Addr) :
    Respects SameButMemory (runHook call hook e mem) := by
  intro w w' h
  cases hook with
  | none => exact .ok h
  | some f => exact eval_respects hcall _ _ _ (h.record e)

theorem runDestroy_respects (cold : Cold U) (d : DescriptorId) (mem : Addr) :
    Respects SameButMemory (runDestroy call cold d mem) :=
  fun _ _ h => eval_respects hcall _ _ _ (h.record _)

theorem destroyWithoutDeallocation_respects (n : ScopeId) (d : DescriptorId) (mem : Addr)
    (cold : Cold U) :
    Respects SameButMemory (destroyWithoutDeallocation P call n d mem cold) := by
  intro w w' h
  unfold destroyWithoutDeallocation
  rw [h.listeners]
  refine Related.mapFailure ?_ _
  dsimp only
  split
  · have hfirst := dispatchIf_respects (P := P) hcall
      (w'.listeners.store.hasListeners .preDestroy) (cold.event .preDestroy (some n)) ⟨none, d, n⟩
    exact (((hfirst w w' h).andThen (runHook_respects hcall _ _ _)).andThen
      (dispatchIf_respects hcall _ _ _)).andThen (runDestroy_respects hcall _ _ _)
  · exact (runHook_respects hcall _ _ _ w w' h).andThen (runDestroy_respects hcall _ _ _)

omit hcall in
/-- The two copies of the destruction sequence differ in the memory only. -/
theorem executeDestructionLifecycle_eq (n : ScopeId) (d : DescriptorId) (mem : Addr) (w : World U) :
    executeDestructionLifecycle P call d mem (some n) w =
      (destroyWithoutDeallocation P call n d mem (w.coldAt P d) w).andThen fun w =>
        .ok (w.release n [mem]) :=
  Attempt.mapFailure_andThen_ok _ _ _

omit hcall in
/-- One instance of a sweep, whatever becomes of its memory. -/
theorem sweepNext_of_find (deferDeallocation : Bool)
    (hfind : (w.scope n).sessionStore.find (w.context.core.sessionSlotOf d) = some mem) :
    sweepNext P call n deferDeallocation w d =
      ((destroyWithoutDeallocation P call n d mem (w.coldAt P d) w).andThen fun v =>
        .ok (v.dispose n d mem deferDeallocation)).andThen fun v =>
          .ok (v.nullSlot n (w.context.core.sessionSlotOf d)) := by
  simp only [sweepNext, hfind]
  cases deferDeallocation with
  | true => rfl
  | false =>
    rw [if_neg Bool.false_ne_true, executeDestructionLifecycle_eq]
    rfl

theorem sweepNext_related (b b' : Bool) (h : SameButMemory w w') :
    Related SameButMemory (sweepNext P call n b w d) (sweepNext P call n b' w' d) := by
  have hslot : w.context.core.sessionSlotOf d = w'.context.core.sessionSlotOf d :=
    congrArg (Registry.sessionSlotOf · d) h.context_core
  have hsame := h.find n d
  rw [World.find, World.find] at hsame
  cases hfind : (w.scope n).sessionStore.find (w.context.core.sessionSlotOf d) with
  | none =>
    have hfind' := hsame.symm.trans hfind
    simp only [sweepNext, hfind, hfind']
    exact .ok h
  | some mem =>
    have hfind' := hsame.symm.trans hfind
    rw [sweepNext_of_find b hfind, sweepNext_of_find b' hfind', h.coldAt, hslot]
    have hdestroyed := destroyWithoutDeallocation_respects (P := P) hcall n d mem (w'.coldAt P d)
    refine ((hdestroyed w w' h).andThen fun v v' hv => ?_).andThen fun v v' hv => ?_
    · exact .ok (hv.dispose n d mem b b')
    · exact .ok (hv.nullSlot n _)

/-- A sweep, with or without deallocation. -/
theorem stopScope_related (b b' : Bool) (h : SameButMemory w w') :
    Related SameButMemory (stopScope P call n b w) (stopScope P call n b' w') := by
  have hbegin : SameButMemory (w.setScope n (w.scope n).beginStop)
      (w'.setScope n (w'.scope n).beginStop) :=
    h.setScope (congrArg ScopedContext.beginStop (h.scope n)) rfl rfl
  rw [stopScope, stopScope, h.insertionOrder]
  refine Related.mapFailure (Related.andThen ?_ fun v v' hv => ?_) _
  · refine Related.forEach (fun d _ v v' hv => ?_) hbegin
    exact sweepNext_related hcall b b' hv
  · exact .ok (hv.finishStop n b b')

theorem announceBound_respects (n : ScopeId) (d : DescriptorId) (mem : Addr) :
    Respects SameButMemory (announceBound P call n d mem) := by
  intro w w' h
  rw [announceBound, announceBound, h.coldAt]
  exact (dispatch_respects hcall _ _ w w' h).andThen (dispatch_respects hcall _ _)

theorem start_respects (n : ScopeId) : Respects SameButMemory (start P call n) := by
  intro w w' h
  unfold start
  rw [h.context_core, h.scopeState, h.pendingRuntimeSessions]
  split
  · exact .fail h _
  · cases (w'.scope n).scopeState with
    | running => exact .ok h
    | stopping => exact .fail h _
    | stopped =>
      have hbegin (count : ℕ) : SameButMemory (w.setScope n ((w.scope n).beginStart count))
          (w'.setScope n ((w'.scope n).beginStart count)) :=
        h.setScope (congrArg (ScopedContext.beginStart · count) (h.scope n) :) rfl rfl
      refine Related.andThen (Related.forEach (fun psb _ v v' hv => ?_) (hbegin _))
        fun v v' hv => ?_
      · exact announceBound_respects hcall n _ _ _ _ (hv.store n psb)
      · exact .ok (hv.setScope (congrArg ScopedContext.finishStart (hv.scope n)) rfl rfl)

theorem stop_respects (n : ScopeId) : Respects SameButMemory (stop P call n) := by
  intro w w' h
  rw [stop, stop, h.scopeState]
  split_ifs
  · exact .ok h
  · exact stopScope_related hcall false false h

/-- From related states, a restart does what a stop and a start do. -/
theorem restart_related (h : SameButMemory w w') : Related SameButMemory (restart P call n w)
    ((stop P call n w').andThen (start P call n)) := by
  rw [restart, stop, stop, h.scopeState]
  refine Related.andThen ?_ (start_respects hcall n)
  split_ifs with hrunning hstopped
  · exact absurd hrunning hstopped
  · exact stopScope_related hcall true false h
  · exact .ok h

theorem bindSession_respects (n : ScopeId) (type : CppType) (name : String) (priority : ℤ)
    (object : Addr) : Respects SameButMemory (bindSession P call n type name priority object) := by
  intro w w' h
  have hbind := h.bind n type name priority object
  unfold bindSession
  rw [h.bindSession_failure, h.scopeState, h.boundDescriptor]
  cases (w'.context.bindSession n type name priority object).failure with
  | some e => exact .fail hbind _
  | none =>
    dsimp only
    split_ifs
    · exact .ok hbind
    · exact announceBound_respects hcall n _ _ _ _ hbind

theorem materializeSessionInstance_respects (n : ScopeId) (p : DescriptorId) :
    Respects SameButMemory (materializeSessionInstance P call n p) := by
  intro w w' h
  unfold materializeSessionInstance
  rw [h.find, h.scopeState, h.context_core, h.materializing, h.coldAt]
  split
  · exact .ok h
  · split
    · exact .fail h _
    · split
      · exact .fail h _
      · split
        · exact .fail h _
        · have hconstruct := eval_respects hcall (w'.coldAt P p).construct _ _ (h.claim n p)
          refine (hconstruct.rethrow fun v v' hv => hv.endClaim n p).andThen fun v v' hv => ?_
          rw [hv.nextAddr]
          exact ((dispatch_respects hcall _ _ _ _ (hv.constructed n p)).andThen
            (runHook_respects hcall _ _ _)).andThen (dispatch_respects hcall _ _)

theorem restart_respects (n : ScopeId) : Respects SameButMemory (restart P call n) := by
  intro w w' h
  rw [restart, restart, h.scopeState]
  refine Related.andThen ?_ (start_respects hcall n)
  split_ifs
  · exact stopScope_related hcall true true h
  · exact stop_respects hcall n w w' h

end Respects

section Exec

variable {U : Type*} (P : Code U)

/-- From states that differ in the memory of destroyed instances only, every call does the
    same. -/
theorem exec_respects (depth : ℕ) (c : Call) : Respects SameButMemory (exec P depth c) := by
  induction depth generalizing c with
  | zero => exact fun w w' h => .fail h _
  | succ depth ih =>
    intro w w' h
    cases c with
    | startScope n => exact start_respects ih n w w' h
    | stopScope n => exact stop_respects ih n w w' h
    | restartScope n => exact restart_respects ih n w w' h
    | bindSession n type name priority object =>
      exact bindSession_respects ih n type name priority object w w' h
    | materializeSession n p => exact materializeSessionInstance_respects ih n p w w' h
    | dispatch e bean => exact dispatch_respects ih e bean w w' h

/-- A restart, from any state of the scope and with any user code, ends as a stop and a start do:
    it throws in the same cases, and the events, hooks, constructors and destructors, the
    states of all scopes and their instances are the same. The memory of the destroyed
    instances has been released or is retired in both. -/
theorem restart_eq (depth : ℕ) (n : ScopeId) (w : World U) :
    let restarted := exec P depth (.restartScope n) w
    let stopped := (exec P depth (.stopScope n) w).andThen (exec P depth (.startScope n))
    restarted.failure = stopped.failure ∧
      restarted.state.trace = stopped.state.trace ∧
      (∀ m, (restarted.state.scope m).scopeState = (stopped.state.scope m).scopeState) ∧
      (∀ m d, restarted.state.find m d = stopped.state.find m d) ∧
      SameButMemory restarted.state stopped.state := by
  have hrelated : Related SameButMemory (exec P depth (.restartScope n) w)
      ((exec P depth (.stopScope n) w).andThen (exec P depth (.startScope n))) := by
    cases depth with
    | zero => exact .refl SameButMemory.refl _
    | succ depth => exact restart_related (exec_respects P depth) (.refl w)
  have hstate := hrelated.state
  exact ⟨hrelated.failure, hstate.trace, hstate.scopeState, hstate.find, hstate⟩

end Exec

/-- User code without effects. -/
def quiet : Code Unit where
  coldAt _ _ := ⟨⟨0, fun _ => true⟩, .done, none, none, fun _ => .done⟩
  callback _ _ _ := .done

/-- A scope that runs with one session bean. -/
def oneSession : World Unit where
  context :=
    { core :=
        { stdSort := .insertion
          started := true
          descriptors := [⟨0, 0, kUnnamed, 0, .session, .annotatedType, true, false, none, none,
            some 0⟩]
          sessionSlotCount := 1 }
      scopes := fun _ =>
        { sessionStore := ⟨fun _ => some 5, 1, [0], []⟩
          scopeState := .running } }
  listeners := {}
  user := ()

/-- The restart retires what the stop releases. -/
example :
    let restarted := (exec quiet 1 (.restartScope 0) oneSession).state
    let stopped := (exec quiet 1 (.stopScope 0) oneSession).state
    (restarted.released 0, restarted.retired 0) = ([], [⟨0, 5⟩]) ∧
      (stopped.released 0, stopped.retired 0) = ([5], []) := by
  decide

end Ctorium.Restart
