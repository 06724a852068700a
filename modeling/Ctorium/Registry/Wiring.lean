import Mathlib.Data.Finset.Card
import Mathlib.Data.Finset.Range
import Ctorium.Lib.Lockstep
import Ctorium.Registry.Context

/-!
# The wiring of beans

A materialization runs the thunks of a bean, which inject the parameters of its
constructor (or of the method that produces it) and of its `postConstruct` hooks, and
each injection may materialize further beans. One `ResolutionContext` is handed down
unchanged through all of this, with the scope that the outermost resolve came from.
This module models the materialization of a bean graph on one thread, as a function of
that scope, together with a record of every injection and of the descriptor injected.

* `materialize_lockstep`: a materialization from a scope follows the one from the root
  as long as the scope answers each request as the root does;
* `wiring_independent_iff`: a singleton is wired the same from a scope and from the
  root exactly if the scope answers every request of the root's wiring as the root
  does, which default names of the scope and session beans may prevent;
* `materialize_returns`: a materialization from the root comes to an end.
-/

namespace Ctorium.Wiring

/-! ## Thunks -/

/-- A parameter of a constructor, a producer method or a hook: a `Bean` of some type, with
    its `named` and `scoped` annotations. -/
structure Param where
  type : CppType
  named : Option String := none
  inScope : Option String := none
  deriving DecidableEq, Repr

/-- What a parameter asks for: a type and a name, and the scope of a deferred handle. -/
structure Request where
  type : CppType
  nameId : NameId
  inScope : Option String := none
  deriving DecidableEq, Repr

/-- An injection: the bean that is built, what it has asked for, and the answer. -/
structure Injection where
  consumer : DescriptorId
  request : Request
  answer : Except Failure DescriptorId
  deriving DecidableEq

/-- The thunks of the descriptors, with the parameters in the order of their evaluation. What
    user code does may depend on all that has been injected so far. -/
structure Thunks where
  /-- The parameters of the constructor. For the product of a factory, the factory comes
      first, and then the parameters of the producer method. -/
  construct : DescriptorId → List Param
  constructorThrows : DescriptorId → List Injection → Bool
  /-- The parameters of each `postConstruct` hook, base classes first. -/
  postConstruct : DescriptorId → List (List Param)
  hookThrows : DescriptorId → List Injection → Bool

/-! ## State -/

/-- The stores that materializations fill, the stack of the thread, and what has been
    injected. -/
structure State where
  nameInterning : NameInterning
  singletons : DescriptorId → Bool := fun _ => false
  sessions : ScopeId → SessionSlot → Bool := fun _ _ => false
  threadLocals : DescriptorId → Bool := fun _ => false
  materializationStack : List DescriptorId := []
  injections : List Injection := []

namespace State

def withNames (s : State) (nameInterning : NameInterning) : State :=
  { s with nameInterning := nameInterning }

def storeSingleton (s : State) (d : DescriptorId) : State :=
  { s with singletons := Function.update s.singletons d true }

/-- A session bean without a slot is never found again. -/
def findSession (s : State) (scope : ScopeId) : Option SessionSlot → Bool
  | some slot => s.sessions scope slot
  | none => false

def storeSession (s : State) (scope : ScopeId) : Option SessionSlot → State
  | some slot => { s with
      sessions := Function.update s.sessions scope
        (Function.update (s.sessions scope) slot true) }
  | none => s

def storeThreadLocal (s : State) (d : DescriptorId) : State :=
  { s with threadLocals := Function.update s.threadLocals d true }

def push (s : State) (d : DescriptorId) : State :=
  { s with materializationStack := d :: s.materializationStack }

def pop (s : State) : State :=
  { s with materializationStack := s.materializationStack.tail }

def record (s : State) (injection : Injection) : State :=
  { s with injections := s.injections ++ [injection] }

end State

/-- Why a materialization stops: by an exception, or because the model has reached the given
    depth. -/
inductive Stop
  | raised (failure : Failure)
  | depthReached
  deriving DecidableEq

/-- A part of a materialization. -/
abbrev Run := State → Attempt Stop State

def Run.throw (e : Failure) : Run := fun s => .fail s (.raised e)

/-! ## Failures -/

def notStarted : Failure :=
  .contextStateError ("Registry::resolve: context has not been started; " ++
    "call start() before resolving beans.")

def unregisteredType : Failure :=
  .resolutionError ("Registry::resolve: the requested type was not registered in " ++
    "this context via discover<>() or bindSingleton().")

def unknownQualifier (name : String) : Failure :=
  .resolutionError ("injectParam: unknown named qualifier '" ++ name ++ "'.")

def sessionFromRoot : Failure :=
  .contextStateError ("Registry::resolve: session beans can only be resolved from a " ++
    "scoped context, not directly from a root context.")

def scopeStopped : Failure :=
  .contextStateError "Registry::resolve: the scope is stopped; start the scope before resolving."

def scopeStopping : Failure :=
  .contextStateError ("Registry::materializeSessionInstance: cannot materialize a new session " ++
    "bean during scope teardown.")

def sessionNotBound : Failure :=
  .contextStateError ("Registry::materializeSessionInstance: bound session bean has no " ++
    "instance for this scope cycle; call bindSession<T>() before start().")

def singletonCycle : Failure :=
  .resolutionError ("Registry::resolve: dependency cycle detected during singleton " ++
    "materialization.")

def sessionCycle : Failure :=
  .resolutionError ("Registry::resolve: dependency cycle detected during session bean " ++
    "materialization.")

def guardCycle : Failure :=
  .resolutionError "Registry: dependency cycle detected during bean materialization."

/-! ## Answers -/

section Answers

variable (b : BeanContext) (scope : Option ScopeId)

def lifetimeOf (d : DescriptorId) : Option Lifetime :=
  b.core.descriptors[d]?.map Descriptor.lifetime

/-- The primary descriptor that an alias stands for. -/
def primaryOf (d : DescriptorId) : DescriptorId :=
  (b.core.descriptors[d]?.bind Descriptor.primaryDescriptor).getD d

/-- What `Registry::resolve` checks of a selected descriptor before it materializes it. -/
def admitted (d : DescriptorId) : Except Failure DescriptorId :=
  match lifetimeOf b d, scope with
  | some .session, none => .error sessionFromRoot
  | some .session, some sc =>
    if (b.scopes sc).scopeState = .stopped then .error scopeStopped else .ok d
  | _, _ => .ok d

/-- The descriptor that `Registry::resolve` materializes. -/
def resolveTarget (type : CppType) (nameId : NameId) : Except Failure DescriptorId :=
  if !b.core.started then .error notStarted
  else match b.core.typeInterning.lookupByTypeIndex type.index with
    | none => .error unregisteredType
    | some typeId => (b.select scope typeId nameId).bind (admitted b scope)

/-- The descriptor of the deferred handle of a scoped parameter. Default names do not count
    here. -/
def deferredTarget (type : CppType) (nameId : NameId) : Except Failure DescriptorId :=
  match b.core.typeInterning.lookupByTypeIndex type.index with
  | none => .error unregisteredType
  | some typeId => BeanContext.selectFallback b.core.priorityOf
      ((b.core.typeIndex.candidatesFor typeId nameId).getD [])

/-- The answer to a request. -/
def answer (q : Request) : Except Failure DescriptorId :=
  if q.inScope.isSome then deferredTarget b q.type q.nameId
  else resolveTarget b scope q.type q.nameId

end Answers

/-! ## Materialization -/

section Materialization

variable (b : BeanContext) (T : Thunks) (scope : Option ScopeId)

/-- The names that a parameter refers to: the scope name is interned, the qualifier only looked
    up. -/
def paramNames (p : Param) (s : State) : State :=
  match p.inScope with
  | none => s
  | some name => s.withNames (s.nameInterning.intern name).2

def paramNameId (p : Param) (s : State) : Option NameId :=
  match p.named with
  | none => some kUnnamed
  | some name => s.nameInterning.lookup name

/-- The bean of the answer is materialized, unless its handle is deferred. -/
def supply (nested : DescriptorId → Run) (q : Request) : Except Failure DescriptorId → Run
  | .error e => Run.throw e
  | .ok d => if q.inScope.isSome then Attempt.ok else nested d

/-- A request is answered, and the answer is recorded. -/
def serve (nested : DescriptorId → Run) (consumer : DescriptorId) (q : Request) : Run := fun s =>
  supply nested q (answer b scope q) (s.record ⟨consumer, q, answer b scope q⟩)

/-- `injectParam`. -/
def injectParam (nested : DescriptorId → Run) (consumer : DescriptorId) (p : Param) :
    Run := fun s =>
  match paramNameId p (paramNames p s) with
  | none => Run.throw (unknownQualifier (p.named.getD "")) (paramNames p s)
  | some nameId => serve b scope nested consumer ⟨p.type, nameId, p.inScope⟩ (paramNames p s)

/-- A thunk: its parameters are injected, and then user code runs. -/
def runThunk (nested : DescriptorId → Run) (d : DescriptorId) (params : List Param)
    (throws : List Injection → Bool) : Run := fun s =>
  (Attempt.forEach (fun s p => injectParam b scope nested d p s) params s).andThen fun s =>
    .check s (if throws s.injections then some (.raised .userException) else none)

def constructBean (nested : DescriptorId → Run) (d : DescriptorId) : Run :=
  runThunk b scope nested d (T.construct d) (T.constructorThrows d)

def postConstruct (nested : DescriptorId → Run) (d : DescriptorId) : Run :=
  Attempt.forEach (fun s params => runThunk b scope nested d params (T.hookThrows d) s)
    (T.postConstruct d)

/-- The descriptor is on the stack of the thread while a part of its materialization runs. -/
def onStack (cycle : Failure) (d : DescriptorId) (run : Run) : Run := fun s =>
  if d ∈ s.materializationStack then Run.throw cycle s
  else (run (s.push d)).cleanup State.pop

/-- A singleton: it leaves the stack when it is stored, before its hooks run. -/
def materializeSingleton (nested : DescriptorId → Run) (d : DescriptorId) : Run := fun s =>
  (onStack singletonCycle d (constructBean b T scope nested d) s).andThen fun s =>
    postConstruct b T scope nested d (s.storeSingleton d)

/-- A prototype: the guard stays until its hooks have run. -/
def materializePrototype (nested : DescriptorId → Run) (d : DescriptorId) : Run :=
  onStack guardCycle d fun s =>
    (constructBean b T scope nested d s).andThen (postConstruct b T scope nested d)

/-- `Registry::materializeSessionInstance`. -/
def materializeSessionInstance (nested : DescriptorId → Run) (sc : ScopeId) (d : DescriptorId) :
    Run := fun s =>
  let d := primaryOf b d
  let slot := b.core.sessionSlotOf d
  if s.findSession sc slot then .ok s
  else if (b.scopes sc).scopeState = .stopping then Run.throw scopeStopping s
  else if b.core.descriptors[d]?.any fun desc => desc.origin == .runtimeBinding then
    Run.throw sessionNotBound s
  else (onStack sessionCycle d (constructBean b T scope nested d) s).andThen fun s =>
    postConstruct b T scope nested d (s.storeSession sc slot)

/-- `Registry::materializeThreadLocalInstance`: like a prototype, but stored before the hooks
    run. -/
def materializeThreadLocalInstance (nested : DescriptorId → Run) (d : DescriptorId) : Run :=
  fun s =>
  let d := primaryOf b d
  if s.threadLocals d then .ok s
  else onStack guardCycle d (fun s => (constructBean b T scope nested d s).andThen fun s =>
    postConstruct b T scope nested d (s.storeThreadLocal d)) s

/-- One level of `Registry::materializeOneImpl`, where `nested` materializes the beans that the
    thunks ask for. -/
def materializeOne (nested : DescriptorId → Run) (d : DescriptorId) : Run := fun s =>
  match lifetimeOf b d with
  | none => .ok s
  | some .singleton =>
    if s.singletons d then .ok s
    else if primaryOf b d = d then materializeSingleton b T scope nested d s
    else if s.singletons (primaryOf b d) then .ok s
    else nested (primaryOf b d) s
  | some .prototype => materializePrototype b T scope nested (primaryOf b d) s
  | some .session =>
    match scope with
    | none => Run.throw sessionFromRoot s
    | some sc =>
      if (b.scopes sc).scopeState = .stopped then Run.throw scopeStopped s
      else materializeSessionInstance b T scope nested sc (primaryOf b d) s
  | some .threadLocal => materializeThreadLocalInstance b T scope nested (primaryOf b d) s

/-- `Registry::materializeOneImpl`, down to the given depth. -/
def materialize : ℕ → DescriptorId → Run
  | 0 => fun _ s => .fail s .depthReached
  | depth + 1 => materializeOne b T scope (materialize depth)

end Materialization

/-! ## Injections are only added -/

section Extends

variable {b : BeanContext} {T : Thunks} {scope : Option ScopeId} {nested : DescriptorId → Run}

/-- The run keeps the injections that have been recorded. -/
def Extends (run : Run) : Prop := ∀ s, s.injections <+: (run s).state.injections

theorem injections_paramNames (p : Param) (s : State) :
    (paramNames p s).injections = s.injections := by
  unfold paramNames
  split <;> rfl

theorem injections_storeSession (s : State) (sc : ScopeId) (slot : Option SessionSlot) :
    (s.storeSession sc slot).injections = s.injections := by
  cases slot <;> rfl

/-- The injections before a sequence are kept by both of its parts. -/
theorem prefix_andThen {s : State} {a : Attempt Stop State} {run : Run}
    (ha : s.injections <+: a.state.injections) (hrun : Extends run) :
    s.injections <+: (a.andThen run).state.injections :=
  Attempt.andThen_invariant (P := fun t => s.injections <+: t.injections) ha
    fun t ht => ht.trans (hrun t)

theorem extends_forEach {α : Type*} {run : α → Run} (hrun : ∀ x, Extends (run x)) (xs : List α) :
    Extends (Attempt.forEach (fun s x => run x s) xs) := fun s =>
  Attempt.forEach_invariant (P := fun t => s.injections <+: t.injections)
    (fun t x _ ht => ht.trans (hrun x t)) (List.prefix_refl _)

theorem extends_supply (hn : ∀ d, Extends (nested d)) (q : Request)
    (ans : Except Failure DescriptorId) : Extends (supply nested q ans) := by
  intro s
  unfold supply
  split
  · exact List.prefix_refl _
  · split
    · exact List.prefix_refl _
    · exact hn _ s

theorem extends_serve (hn : ∀ d, Extends (nested d)) (consumer : DescriptorId) (q : Request) :
    Extends (serve b scope nested consumer q) := fun s =>
  List.IsPrefix.trans (List.prefix_append s.injections [⟨consumer, q, answer b scope q⟩])
    (extends_supply hn q _ (s.record ⟨consumer, q, answer b scope q⟩))

theorem extends_injectParam (hn : ∀ d, Extends (nested d)) (consumer : DescriptorId) (p : Param) :
    Extends (injectParam b scope nested consumer p) := by
  intro s
  rw [← injections_paramNames p s]
  unfold injectParam
  split
  · exact List.prefix_refl _
  · exact extends_serve hn consumer _ _

theorem extends_runThunk (hn : ∀ d, Extends (nested d)) (d : DescriptorId) (params : List Param)
    (throws : List Injection → Bool) : Extends (runThunk b scope nested d params throws) :=
  fun s => prefix_andThen (extends_forEach (extends_injectParam hn d) params s)
    fun _ => List.prefix_refl _

theorem extends_postConstruct (hn : ∀ d, Extends (nested d)) (d : DescriptorId) :
    Extends (postConstruct b T scope nested d) :=
  extends_forEach (fun params => extends_runThunk hn d params _) _

theorem extends_onStack {run : Run} (hrun : Extends run) (cycle : Failure) (d : DescriptorId) :
    Extends (onStack cycle d run) := by
  intro s
  unfold onStack
  split
  · exact List.prefix_refl _
  · exact hrun (s.push d)

theorem extends_materializeOne (hn : ∀ d, Extends (nested d)) (d : DescriptorId) :
    Extends (materializeOne b T scope nested d) := by
  intro s
  have hconstruct : ∀ d, Extends (constructBean b T scope nested d) :=
    fun d => extends_runThunk hn d _ _
  have hhooks : ∀ d, Extends (postConstruct b T scope nested d) := extends_postConstruct hn
  -- By lifetime; a bean that is there already adds nothing, and any other one its parameters and
  -- hooks.
  unfold materializeOne
  split
  · exact List.prefix_refl _
  · split_ifs
    · exact List.prefix_refl _
    · exact prefix_andThen (extends_onStack (hconstruct d) _ _ s) fun s =>
        hhooks d (s.storeSingleton d)
    · exact List.prefix_refl _
    · exact hn _ s
  · exact extends_onStack (fun s => prefix_andThen (hconstruct _ s) (hhooks _)) _ _ s
  · split
    · exact List.prefix_refl _
    · split_ifs
      · exact List.prefix_refl _
      · unfold materializeSessionInstance
        dsimp only
        split_ifs
        · exact List.prefix_refl _
        · exact List.prefix_refl _
        · exact List.prefix_refl _
        · refine prefix_andThen (extends_onStack (hconstruct _) _ _ s) fun s => ?_
          rw [← injections_storeSession s]
          exact hhooks _ _
  · unfold materializeThreadLocalInstance
    dsimp only
    split_ifs
    · exact List.prefix_refl _
    · refine extends_onStack (fun s => ?_) _ _ s
      exact prefix_andThen (hconstruct _ s) fun s => hhooks _ (s.storeThreadLocal _)

/-- A materialization keeps the injections that have been recorded. -/
theorem extends_materialize (depth : ℕ) (d : DescriptorId) :
    Extends (materialize b T scope depth d) := by
  induction depth generalizing d with
  | zero => exact fun s => List.prefix_refl _
  | succ depth ih => exact extends_materializeOne ih d

end Extends

/-! ## The root and a scope in lockstep -/

/-- The generated aliases of a bean have its lifetime, and stand for the bean itself. -/
structure AliasesLinked (b : BeanContext) : Prop where
  lifetime : ∀ d lt, lifetimeOf b d = some lt → lifetimeOf b (primaryOf b d) = some lt
  primary : ∀ d, primaryOf b (primaryOf b d) = primaryOf b d

/-- The scope answers the request of an injection as it was answered. -/
def AnsweredBy (b : BeanContext) (scope : Option ScopeId) (i : Injection) : Prop :=
  answer b scope i.request = i.answer

section Lockstep

variable {b : BeanContext} {T : Thunks} {scope : Option ScopeId}
  {nested nested' : DescriptorId → Run}

/-- A run from the scope follows a run from the root. -/
def Follows (b : BeanContext) (scope : Option ScopeId) (run run' : Run) : Prop :=
  ∀ s, Attempt.Lockstep State.injections (AnsweredBy b scope) s (run s) (run' s)

theorem not_session_of_admitted {d e : DescriptorId} (h : admitted b none e = .ok d) :
    lifetimeOf b d ≠ some .session := by
  unfold admitted at h
  split at h
  · cases h
  · rename_i hsome
    cases hsome
  · rename_i hne _
    obtain rfl : e = d := by simpa using h
    exact fun hd => hne hd rfl

/-- The root never answers with a session bean, unless the handle is deferred. -/
theorem not_session_of_answer {q : Request} {d : DescriptorId} (h : answer b none q = .ok d)
    (hq : q.inScope.isSome = false) : lifetimeOf b d ≠ some .session := by
  rw [answer, hq, if_neg Bool.false_ne_true, resolveTarget] at h
  split at h
  · cases h
  · split at h
    · cases h
    · rename_i typeId _
      cases hsel : b.select none typeId q.nameId with
      | error e =>
        rw [hsel] at h
        cases h
      | ok e =>
        rw [hsel] at h
        exact not_session_of_admitted h

/-- The nested materializations follow each other on all beans with a root lifetime. -/
structure NestedFollows (b : BeanContext) (scope : Option ScopeId)
    (nested nested' : DescriptorId → Run) : Prop where
  left : ∀ d, Extends (nested d)
  right : ∀ d, Extends (nested' d)
  follows : ∀ d, lifetimeOf b d ≠ some .session → Follows b scope (nested d) (nested' d)

theorem follows_serve (h : NestedFollows b scope nested nested') (consumer : DescriptorId)
    (q : Request) : Follows b scope (serve b scope nested consumer q)
      (serve b none nested' consumer q) := by
  intro s
  refine Attempt.Lockstep.entry (q := ⟨consumer, q, answer b scope q⟩)
    (t := s.record ⟨consumer, q, answer b scope q⟩)
    (u := s.record ⟨consumer, q, answer b none q⟩) rfl rfl ?_
    (extends_supply h.left q _ _) (extends_supply h.right q _ _) fun hq => ?_
  · simp [AnsweredBy]
  · -- The answers are equal, so one bean is materialized, and it is no session bean.
    have hans : answer b scope q = answer b none q := (Injection.mk.inj hq).2.2
    simp only [serve, hans]
    cases hroot : answer b none q with
    | error e => exact .of_trace_eq rfl
    | ok d =>
      cases hdeferred : q.inScope.isSome with
      | true =>
        simp only [supply, hdeferred]
        exact .of_trace_eq rfl
      | false =>
        simp only [supply, hdeferred]
        exact h.follows d (not_session_of_answer hroot hdeferred) _

theorem follows_injectParam (h : NestedFollows b scope nested nested') (consumer : DescriptorId)
    (p : Param) : Follows b scope (injectParam b scope nested consumer p)
      (injectParam b none nested' consumer p) := by
  intro s
  refine .congr_start (t := paramNames p s) (injections_paramNames p s) ?_
  unfold injectParam
  split
  · exact .of_trace_eq rfl
  · exact follows_serve h consumer _ _

theorem follows_runThunk (h : NestedFollows b scope nested nested') (d : DescriptorId)
    (params : List Param) (throws : List Injection → Bool) :
    Follows b scope (runThunk b scope nested d params throws)
      (runThunk b none nested' d params throws) := fun s =>
  (Attempt.Lockstep.forEach (fun s p => follows_injectParam h d p s) params s).andThen
    fun _ => .of_trace_eq rfl

theorem follows_constructBean (h : NestedFollows b scope nested nested') (d : DescriptorId) :
    Follows b scope (constructBean b T scope nested d) (constructBean b T none nested' d) :=
  follows_runThunk h d _ _

theorem follows_postConstruct (h : NestedFollows b scope nested nested') (d : DescriptorId) :
    Follows b scope (postConstruct b T scope nested d)
      (postConstruct b T none nested' d) := fun s =>
  Attempt.Lockstep.forEach (fun s params => follows_runThunk h d params _ s) _ s

theorem follows_onStack {run run' : Run} (h : Follows b scope run run') (cycle : Failure)
    (d : DescriptorId) : Follows b scope (onStack cycle d run) (onStack cycle d run') := by
  intro s
  unfold onStack
  split
  · exact .of_trace_eq rfl
  · exact .congr_start (t := s.push d) rfl ((h (s.push d)).cleanup (f := State.pop) fun _ => rfl)

/-- One level of a materialization from the scope follows the one from the root. -/
theorem follows_materializeOne (hb : AliasesLinked b) (h : NestedFollows b scope nested nested')
    {d : DescriptorId} (hd : lifetimeOf b d ≠ some .session) :
    Follows b scope (materializeOne b T scope nested d) (materializeOne b T none nested' d) := by
  intro s
  unfold materializeOne
  split
  · exact .of_trace_eq rfl
  · rename_i hlt
    split_ifs
    · exact .of_trace_eq rfl
    · refine (follows_onStack (follows_constructBean h d) _ d s).andThen fun t => ?_
      exact .congr_start (t := t.storeSingleton d) rfl (follows_postConstruct h d _)
    · exact .of_trace_eq rfl
    · refine h.follows _ ?_ s
      rw [hb.lifetime d _ hlt]
      simp
  · refine follows_onStack (fun t => ?_) _ _ s
    exact (follows_constructBean h _ t).andThen (follows_postConstruct h _)
  · rename_i hlt
    exact absurd hlt hd
  · unfold materializeThreadLocalInstance
    dsimp only
    split_ifs
    · exact .of_trace_eq rfl
    · refine follows_onStack (fun t => ?_) _ _ s
      refine (follows_constructBean h _ t).andThen fun u => ?_
      exact .congr_start (t := u.storeThreadLocal _) rfl (follows_postConstruct h _ _)

/-- A materialization from the scope follows the one from the root, to any depth. -/
theorem materialize_lockstep (hb : AliasesLinked b) (depth : ℕ) {d : DescriptorId}
    (hd : lifetimeOf b d ≠ some .session) :
    Follows b scope (materialize b T scope depth d) (materialize b T none depth d) := by
  induction depth generalizing d with
  | zero => exact fun s => .of_trace_eq rfl
  | succ depth ih =>
    exact follows_materializeOne hb
      ⟨extends_materialize depth, extends_materialize depth, fun d hd => ih hd⟩ hd

end Lockstep

/-! ## Materializations come to an end -/

section Depth

variable (b : BeanContext)

/-- The stack of the thread holds distinct descriptors of the registry. -/
structure Ready (s : State) : Prop where
  nodup : s.materializationStack.Nodup
  valid : ∀ d ∈ s.materializationStack, d < b.core.descriptors.length

/-- The singletons that are not stored yet. -/
def unstored (s : State) : Finset DescriptorId :=
  {d ∈ Finset.range b.core.descriptors.length | s.singletons d = false}

/-- What bounds the nesting: the singletons that are not stored, and the descriptors that are
    not on the stack. -/
def room (s : State) : ℕ :=
  (unstored b s).card + (b.core.descriptors.length - s.materializationStack.length)

/-- Materializations restore the stack and keep the singletons. -/
structure Later (s t : State) : Prop where
  stack : t.materializationStack = s.materializationStack
  singletons : ∀ d, s.singletons d = true → t.singletons d = true

/-- The attempt has not been cut off. -/
structure Returns (s : State) (a : Attempt Stop State) : Prop where
  failure : a.failure ≠ some .depthReached
  later : Later s a.state

/-- The depth that the redirection of an alias takes. -/
def redirection (d : DescriptorId) : ℕ := if primaryOf b d = d then 1 else 2

/-- The run returns in the states with less than the given room. -/
def ReturnsBelow (n : ℕ) (run : Run) : Prop := ∀ s, Ready b s → room b s < n → Returns s (run s)

variable {b} {T : Thunks} {s t u : State} {a : Attempt Stop State} {n : ℕ}

theorem Later.refl (s : State) : Later s s := ⟨rfl, fun _ => id⟩

theorem Later.trans (h : Later s t) (h' : Later t u) : Later s u :=
  ⟨h'.stack.trans h.stack, fun d hd => h'.singletons d (h.singletons d hd)⟩

theorem Later.ready (h : Later s t) (hs : Ready b s) : Ready b t :=
  ⟨h.stack ▸ hs.nodup, h.stack ▸ hs.valid⟩

theorem unstored_subset (h : ∀ d, s.singletons d = true → t.singletons d = true) :
    unstored b t ⊆ unstored b s := by
  intro d hd
  simp only [unstored, Finset.mem_filter] at hd ⊢
  refine ⟨hd.1, ?_⟩
  by_contra hs
  rw [h d (by simpa using hs)] at hd
  exact absurd hd.2 (by simp)

theorem Later.room_le (h : Later s t) : room b t ≤ room b s := by
  rw [room, room, h.stack]
  exact Nat.add_le_add_right (Finset.card_le_card (unstored_subset h.singletons)) _

/-- Pushing a descriptor takes room. -/
theorem room_push {d : DescriptorId} (hs : Ready b s) (hd : d < b.core.descriptors.length)
    (hnew : d ∉ s.materializationStack) : room b (s.push d) + 1 ≤ room b s := by
  have hsub : (d :: s.materializationStack).toFinset ⊆ Finset.range b.core.descriptors.length := by
    intro e he
    rw [List.mem_toFinset, List.mem_cons] at he
    rw [Finset.mem_range]
    rcases he with rfl | he
    · exact hd
    · exact hs.valid e he
  have hlen := Finset.card_le_card hsub
  rw [List.toFinset_card_of_nodup (List.nodup_cons.mpr ⟨hnew, hs.nodup⟩), Finset.card_range,
    List.length_cons] at hlen
  have hunstored : unstored b (s.push d) = unstored b s := rfl
  have hstack : (s.push d).materializationStack.length = s.materializationStack.length + 1 := rfl
  rw [room, room, hunstored, hstack]
  omega

theorem Ready.push {d : DescriptorId} (hs : Ready b s) (hd : d < b.core.descriptors.length)
    (hnew : d ∉ s.materializationStack) : Ready b (s.push d) := by
  refine ⟨List.nodup_cons.mpr ⟨hnew, hs.nodup⟩, fun e he => ?_⟩
  rcases List.mem_cons.mp he with rfl | he
  · exact hd
  · exact hs.valid e he

/-- Storing a singleton takes room. -/
theorem room_storeSingleton {d : DescriptorId} (h : Later s t)
    (hd : d < b.core.descriptors.length) (hnew : s.singletons d = false) :
    room b (t.storeSingleton d) + 1 ≤ room b s := by
  have hlt : (unstored b (t.storeSingleton d)).card < (unstored b s).card := by
    refine Finset.card_lt_card (Finset.ssubset_iff_of_subset ?_ |>.mpr ⟨d, ?_, ?_⟩)
    · refine unstored_subset fun e he => ?_
      by_cases hed : e = d
      · subst hed
        simp [State.storeSingleton]
      · simpa [State.storeSingleton, Function.update_of_ne hed] using h.singletons e he
    · simp [unstored, hd, hnew]
    · rw [unstored, Finset.mem_filter]
      simp [State.storeSingleton]
  have hstack : (t.storeSingleton d).materializationStack = s.materializationStack := h.stack
  rw [room, room, hstack]
  omega

theorem Returns.andThen {run : Run} (ha : Returns s a) (hs : Ready b s) (hn : room b s < n)
    (hrun : ReturnsBelow b n run) : Returns s (a.andThen run) := by
  cases hfail : a.failure with
  | some e =>
    rw [Attempt.andThen_of_fail hfail]
    exact ha
  | none =>
    rw [Attempt.andThen_of_ok hfail]
    have hnext := hrun a.state (ha.later.ready hs) (ha.later.room_le.trans_lt hn)
    exact ⟨hnext.failure, ha.later.trans hnext.later⟩

theorem returnsBelow_forEach {α : Type*} {run : α → Run} (hrun : ∀ x, ReturnsBelow b n (run x))
    (xs : List α) : ReturnsBelow b n (Attempt.forEach (fun s x => run x s) xs) := by
  induction xs with
  | nil => exact fun s _ _ => ⟨by simp [Attempt.forEach], .refl s⟩
  | cons x xs ih => exact fun s hs hn => (hrun x s hs hn).andThen hs hn ih

section

variable {nested : DescriptorId → Run} (hn : ∀ d, ReturnsBelow b n (nested d))

include hn

theorem returnsBelow_injectParam (consumer : DescriptorId) (p : Param) :
    ReturnsBelow b n (injectParam b none nested consumer p) := by
  intro s hs hroom
  have hnames : Later s (paramNames p s) := by
    unfold paramNames
    split
    · exact .refl s
    · exact ⟨rfl, fun _ => id⟩
  unfold injectParam
  split
  · exact ⟨by simp [Run.throw], hnames⟩
  · rename_i nameId _
    rw [serve]
    generalize answer b none ⟨p.type, nameId, p.inScope⟩ = ans
    have hlater : Later s ((paramNames p s).record ⟨consumer, ⟨p.type, nameId, p.inScope⟩, ans⟩) :=
      hnames.trans ⟨rfl, fun _ => id⟩
    unfold supply
    split
    · exact ⟨by simp [Run.throw], hlater⟩
    · rename_i d
      split
      · exact ⟨by simp, hlater⟩
      · have hd := hn d _ (hlater.ready hs) (hlater.room_le.trans_lt hroom)
        exact ⟨hd.failure, hlater.trans hd.later⟩

theorem returnsBelow_runThunk (d : DescriptorId) (params : List Param)
    (throws : List Injection → Bool) :
    ReturnsBelow b n (runThunk b none nested d params throws) := by
  intro s hs hroom
  refine (returnsBelow_forEach (returnsBelow_injectParam hn d) params s hs hroom).andThen hs hroom
    fun t _ _ => ⟨?_, .refl t⟩
  simp only [Attempt.check_failure]
  split <;> simp

theorem returnsBelow_postConstruct (d : DescriptorId) :
    ReturnsBelow b n (postConstruct b T none nested d) :=
  returnsBelow_forEach (fun params => returnsBelow_runThunk hn d params _) _

end

/-- What runs on the stack has less room. -/
theorem returns_onStack {run : Run} {d : DescriptorId} (hs : Ready b s)
    (hd : d < b.core.descriptors.length) (hrun : ReturnsBelow b (room b s) run)
    (cycle : Failure) : Returns s (onStack cycle d run s) := by
  unfold onStack
  split
  · exact ⟨by simp [Run.throw], .refl s⟩
  · rename_i hnew
    have hpush := hrun (s.push d) (hs.push hd hnew) (room_push hs hd hnew)
    refine ⟨hpush.failure, ?_, hpush.later.singletons⟩
    show (run (s.push d)).state.materializationStack.tail = _
    rw [hpush.later.stack]
    rfl

theorem lt_length_of_lifetimeOf {d : DescriptorId} {lt : Lifetime} (h : lifetimeOf b d = some lt) :
    d < b.core.descriptors.length := by
  unfold lifetimeOf at h
  by_contra hd
  rw [List.getElem?_eq_none (Nat.le_of_not_lt hd)] at h
  cases h

/-- One level of a materialization from the root. -/
theorem returns_materializeOne {nested : DescriptorId → Run} (hb : AliasesLinked b)
    (hs : Ready b s) (hn : ∀ d, ReturnsBelow b (room b s) (nested d)) (d : DescriptorId)
    (halias : primaryOf b d ≠ d → Returns s (nested (primaryOf b d) s)) :
    Returns s (materializeOne b T none nested d s) := by
  have hconstruct : ∀ d, ReturnsBelow b (room b s) (constructBean b T none nested d) :=
    fun d => returnsBelow_runThunk hn d _ _
  have hhooks : ∀ d, ReturnsBelow b (room b s) (postConstruct b T none nested d) :=
    returnsBelow_postConstruct hn
  unfold materializeOne
  split
  · exact ⟨by simp, .refl s⟩
  · rename_i hlt
    split_ifs with hstored hprimary hother
    · exact ⟨by simp, .refl s⟩
    · have hd := lt_length_of_lifetimeOf hlt
      have hfirst := returns_onStack hs hd (hconstruct d) singletonCycle
      unfold materializeSingleton
      cases hfail : (onStack singletonCycle d (constructBean b T none nested d) s).failure with
      | some e =>
        rw [Attempt.andThen_of_fail hfail]
        exact hfirst
      | none =>
        rw [Attempt.andThen_of_ok hfail]
        -- The singleton is stored, which makes up for its place on the stack.
        have hstore := room_storeSingleton (b := b) hfirst.later hd (by simpa using hstored)
        have hlater : Later s ((onStack singletonCycle d (constructBean b T none nested d)
            s).state.storeSingleton d) := by
          refine hfirst.later.trans ⟨rfl, fun e he => ?_⟩
          by_cases hed : e = d
          · subst hed
            simp [State.storeSingleton]
          · simpa [State.storeSingleton, Function.update_of_ne hed] using he
        have hnext := hhooks d _ (hlater.ready hs) hstore
        exact ⟨hnext.failure, hlater.trans hnext.later⟩
    · exact ⟨by simp, .refl s⟩
    · exact halias hprimary
  · rename_i hlt
    have hd := lt_length_of_lifetimeOf (hb.lifetime d _ hlt)
    refine returns_onStack hs hd (fun t ht hroom => ?_) _
    exact (hconstruct _ t ht hroom).andThen ht hroom (hhooks _)
  · exact ⟨by simp [Run.throw], .refl s⟩
  · rename_i hlt
    have hd := lt_length_of_lifetimeOf (hb.lifetime d _ hlt)
    unfold materializeThreadLocalInstance
    dsimp only
    rw [hb.primary]
    split_ifs
    · exact ⟨by simp, .refl s⟩
    · refine returns_onStack hs hd (fun t ht hroom => ?_) _
      refine (hconstruct _ t ht hroom).andThen ht hroom fun u hu hroom => ?_
      have hlater : Later u (u.storeThreadLocal (primaryOf b d)) := ⟨rfl, fun _ => id⟩
      have hnext := hhooks (primaryOf b d) _ (hlater.ready hu) (hlater.room_le.trans_lt hroom)
      exact ⟨hnext.failure, hlater.trans hnext.later⟩

/-- A materialization from the root is never cut off at twice the depth that there is room for. -/
theorem materialize_returns (hb : AliasesLinked b) (depth : ℕ) (d : DescriptorId) (s : State)
    (hs : Ready b s) (hdepth : 2 * room b s + redirection b d ≤ depth) :
    Returns s (materialize b T none depth d s) := by
  have hpos : ∀ d, 1 ≤ redirection b d ∧ redirection b d ≤ 2 := by
    intro d
    unfold redirection
    split <;> decide
  induction depth generalizing d s with
  | zero =>
    have := (hpos d).1
    omega
  | succ depth ih =>
    refine returns_materializeOne hb hs (fun e t ht hroom => ih e t ht ?_) d fun hne => ih _ s hs ?_
    · have := (hpos d).1
      have := (hpos e).2
      omega
    · have htwo : redirection b d = 2 := if_neg hne
      have hone : redirection b (primaryOf b d) = 1 := if_pos (hb.primary d)
      omega

theorem AliasesLinked.of_forall_lt
    (h : ∀ d < b.core.descriptors.length, lifetimeOf b (primaryOf b d) = lifetimeOf b d ∧
      primaryOf b (primaryOf b d) = primaryOf b d) : AliasesLinked b where
  lifetime d lt hd := (h d (lt_length_of_lifetimeOf hd)).1.trans hd
  primary d := by
    by_cases hd : d < b.core.descriptors.length
    · exact (h d hd).2
    · have hself : primaryOf b d = d := by
        rw [primaryOf, List.getElem?_eq_none (Nat.le_of_not_lt hd)]
        rfl
      rw [hself, hself]

end Depth

/-! ## Independence of the scope -/

/-- A singleton is materialized from a scope exactly as it is from the root (the same
    injections, stores and exception), if and only if the scope gives the same answer as the
    root to every request that the materialization from the root makes. -/
theorem wiring_independent_iff (b : BeanContext) (T : Thunks) (hb : AliasesLinked b) (sc : ScopeId)
    (depth : ℕ) (d : DescriptorId) (hd : lifetimeOf b d = some .singleton) (s : State) :
    materialize b T (some sc) depth d s = materialize b T none depth d s ↔
      ∀ i ∈ Attempt.written State.injections s (materialize b T none depth d s).state,
        answer b (some sc) i.request = i.answer := by
  have hroot : lifetimeOf b d ≠ some .session := by simp [hd]
  exact (materialize_lockstep hb depth hroot s).eq_iff

/-! ### A default name of a scope -/

def settingsType : CppType := ⟨"app::Settings", 2⟩

/-- A service, and the settings under no name and under a name of their own. -/
def service : ContributedDescriptor :=
  { identity := 1, exposedType := ⟨"app::Service", 1⟩, concreteType := ⟨"app::Service", 1⟩,
    lifetime := .singleton }

def settings : ContributedDescriptor :=
  { identity := 2, exposedType := settingsType, concreteType := settingsType,
    lifetime := .singleton }

def tenantSettings : ContributedDescriptor :=
  { settings with identity := 3, beanName := "tenant" }

/-- The scope `0` prefers the settings of the tenant. -/
def tenantContext : BeanContext :=
  BeanContext.execAll .initial
    [.discover [service, settings, tenantSettings], .start, .startScope 0,
    .startScope 1, .defaultNamed (some 0) settingsType "tenant"]

/-- The constructor of the service takes settings, and no name is asked for. -/
def serviceThunks : Thunks where
  construct d := if d = 0 then [⟨settingsType, none, none⟩] else []
  constructorThrows _ _ := false
  postConstruct _ := []
  hookThrows _ _ := false

def freshState (b : BeanContext) : State := { nameInterning := b.core.nameInterning }

theorem aliasesLinked_tenantContext : AliasesLinked tenantContext :=
  .of_forall_lt (by decide)

/-- From a scope without default names, the service is wired as from the root. -/
theorem wiring_without_defaults :
    materialize tenantContext serviceThunks (some 1) 8 0 (freshState tenantContext) =
      materialize tenantContext serviceThunks none 8 0 (freshState tenantContext) :=
  (wiring_independent_iff tenantContext serviceThunks aliasesLinked_tenantContext 1 8 0 (by decide)
    (freshState tenantContext)).mpr (by decide)

/-- The service keeps the settings that the first scope to ask for it prefers. -/
theorem scope_default_leaks :
    (tenantContext.scopes 0).scopeState = .running ∧
      lifetimeOf tenantContext 0 = some .singleton ∧
      (materialize tenantContext serviceThunks none 8 0 (freshState tenantContext)).state.injections
        = [⟨0, ⟨settingsType, kUnnamed, none⟩, .ok 1⟩] ∧
      (materialize tenantContext serviceThunks (some 0) 8 0
        (freshState tenantContext)).state.injections
        = [⟨0, ⟨settingsType, kUnnamed, none⟩, .ok 2⟩] ∧
      materialize tenantContext serviceThunks (some 0) 8 0 (freshState tenantContext) ≠
        materialize tenantContext serviceThunks none 8 0 (freshState tenantContext) := by
  have hroot : (materialize tenantContext serviceThunks none 8 0
      (freshState tenantContext)).state.injections
        = [⟨0, ⟨settingsType, kUnnamed, none⟩, .ok 1⟩] := by decide
  have hscope : (materialize tenantContext serviceThunks (some 0) 8 0
      (freshState tenantContext)).state.injections
        = [⟨0, ⟨settingsType, kUnnamed, none⟩, .ok 2⟩] := by decide
  refine ⟨by decide, by decide, hroot, hscope, fun heq => ?_⟩
  rw [heq, hroot] at hscope
  exact absurd hscope (by decide)

end Ctorium.Wiring
