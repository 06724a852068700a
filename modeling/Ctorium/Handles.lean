import Ctorium.ListenerStore
import Ctorium.Registry

/-!
# Handles, casts and the views of typed listeners

A handle points at a bean directly, or is a proxy that looks the bean up in its
scope on every access. Both carry a descriptor, and a descriptor exposes one type:
the concrete type of the bean, or a public base of it (an exposed alias, whose
`primaryDescriptor` is the descriptor of the concrete type). A base subobject lies
at an offset in the object, so an alias comes with the maps from the address of the
object to that of the base and back; there is no way back from a virtual base.

`cast` applies these maps. The closure that `on<T>` wraps around a callback asks
the handle of the event for compatibility, and then builds the handle of the
callback from the same pointer and the same descriptor.

* `arrow_cast`: a cast gives the address of the subobject of the requested type;
* `arrow_view`: the callback gets the address that the event refers to;
* `typed_view_iff`: so both agree exactly if the two subobjects lie at the same
  address.
-/

namespace Ctorium.Handles

open ListenerStore (LifecyclePhase)

/-! ## Data model -/

/-- What a cast reads of the descriptor table and of the type index. -/
structure DescriptorTypes where
  exposedType : DescriptorId → TypeId
  concreteType : DescriptorId → TypeId
  name : DescriptorId → NameId
  primaryDescriptor : DescriptorId → Option DescriptorId
  candidatesFor : TypeId → NameId → List DescriptorId

namespace DescriptorTypes

/-- The tables of a registry. -/
def of (r : Registry) : DescriptorTypes where
  exposedType d := (r.descriptors[d]?.map Descriptor.exposedType).getD 0
  concreteType d := (r.descriptors[d]?.map Descriptor.concreteType).getD 0
  name d := (r.descriptors[d]?.map Descriptor.name).getD kUnnamed
  primaryDescriptor d := r.descriptors[d]?.bind Descriptor.primaryDescriptor
  candidatesFor typeId nameId := (r.typeIndex.candidatesFor typeId nameId).getD []

variable (D : DescriptorTypes)

def primaryOf (d : DescriptorId) : DescriptorId := (D.primaryDescriptor d).getD d

/-- `findAliasByPrimary`: the candidate of the type with the given primary, under the name
    and then without a name. -/
def findAliasByPrimary (uid : TypeId) (name : NameId) (primary : DescriptorId) :
    Option DescriptorId :=
  let check (cands : List DescriptorId) := cands.find? fun d => D.primaryDescriptor d = some primary
  match check (D.candidatesFor uid name) with
  | some d => some d
  | none => if name ≠ kUnnamed then check (D.candidatesFor uid kUnnamed) else none

/-- The descriptor of the bean of `d` that exposes the type. -/
def exposingDescriptor (d : DescriptorId) (uid : TypeId) : Option DescriptorId :=
  if D.exposedType d = uid then some d
  else if D.concreteType d = uid then some (D.primaryOf d)
  else D.findAliasByPrimary uid (D.name d) (D.primaryOf d)

variable {D} {d t p : DescriptorId} {uid : TypeId} {nameId : NameId}

theorem primaryOf_of_some (h : D.primaryDescriptor d = some p) : D.primaryOf d = p := by
  rw [primaryOf, h, Option.getD_some]

theorem primaryOf_of_none (h : D.primaryDescriptor d = none) : D.primaryOf d = d := by
  rw [primaryOf, h, Option.getD_none]

/-- An alias that the lookup finds is a candidate of the type, and has the primary asked for. -/
theorem of_findAliasByPrimary (h : D.findAliasByPrimary uid nameId p = some t) :
    D.primaryDescriptor t = some p ∧ ∃ nameId', t ∈ D.candidatesFor uid nameId' := by
  have hcheck : ∀ nameId', ((D.candidatesFor uid nameId').find? fun d =>
      D.primaryDescriptor d = some p) = some t →
      D.primaryDescriptor t = some p ∧ ∃ nameId', t ∈ D.candidatesFor uid nameId' :=
    fun nameId' hfind => ⟨by simpa using List.find?_some hfind,
      nameId', List.mem_of_find?_eq_some hfind⟩
  simp only [findAliasByPrimary] at h
  split at h
  · next d hd =>
    obtain rfl := Option.some.inj h
    exact hcheck _ hd
  · split_ifs at h
    exact hcheck _ h

/-- The descriptor of the bean that exposes a type has the same primary, if the primary is its
    own. -/
theorem primaryOf_exposingDescriptor (hd : D.primaryOf (D.primaryOf d) = D.primaryOf d)
    (h : D.exposingDescriptor d uid = some t) : D.primaryOf t = D.primaryOf d := by
  unfold exposingDescriptor at h
  split_ifs at h
  · rw [Option.some.inj h]
  · rw [← Option.some.inj h, hd]
  · exact primaryOf_of_some (of_findAliasByPrimary h).1

end DescriptorTypes

/-- What the handles read besides that: how a session bean is stored, and the maps between an
    object and the base that a descriptor exposes. -/
structure DescriptorFields extends DescriptorTypes where
  sessionSlot : DescriptorId → SessionSlot
  adjustToExposed : DescriptorId → Option (Addr → Addr)
  adjustToConcrete : DescriptorId → Option (Addr → Addr)

namespace DescriptorFields

variable (D : DescriptorFields)

/-- The address of the subobject that a descriptor exposes, in the object at `mem`. -/
def subobject (d : DescriptorId) (mem : Addr) : Addr :=
  match D.adjustToExposed d with
  | some f => f mem
  | none => mem

end DescriptorFields

/-- The descriptor table of a started registry: a primary is its own primary and exposes the
    whole object, and the map back from a base undoes the map to it. -/
structure Descriptors extends DescriptorFields where
  primaryOf_primaryOf : ∀ d, toDescriptorFields.primaryOf (toDescriptorFields.primaryOf d) =
    toDescriptorFields.primaryOf d
  primary_unadjusted : ∀ d, toDescriptorFields.primaryOf d = d →
    adjustToExposed d = none ∧ adjustToConcrete d = none
  adjustToConcrete_adjustToExposed : ∀ d g, adjustToConcrete d = some g →
    ∃ f, adjustToExposed d = some f ∧ ∀ p, g (f p) = p

/-- A type-erased handle: a pointer and a descriptor, or, without a pointer, a scope and a
    descriptor. -/
structure AnyBean where
  object : Option Addr
  descId : DescriptorId
  scopeNameId : NameId := kUnnamed
  deriving DecidableEq, Repr

/-- A typed handle: direct (form 1) or a session proxy (form 2). -/
inductive Bean
  | direct (object : Addr) (descId : DescriptorId)
  | proxy (scopeNameId : NameId) (descId : DescriptorId)
  deriving DecidableEq, Repr

/-- The scopes as a proxy sees them: the state and the session store of each, and what
    `materializeSessionInstance` of a primary gives. -/
structure Sessions where
  findScope : NameId → Option (ScopeState × (SessionSlot → Option Addr))
  materializeSessionInstance : NameId → DescriptorId → Except Failure Addr

/-! ## Casts -/

/-- The outcome of `resolveCastTarget`. -/
inductive CastTarget
  | incompatible
  | proxy (descId : DescriptorId)
  | sameExposed (descId : DescriptorId) (object : Addr)
  | concrete (descId : DescriptorId) (object : Addr)
  | exposedAlias (descId : DescriptorId) (object : Addr)
  | downcastUnavailable (descId : DescriptorId)
  deriving DecidableEq, Repr

/-- `resolveCastTarget`; a type without an identifier is `none`. -/
def DescriptorFields.resolveCastTarget (D : DescriptorFields) (uid : Option TypeId)
    (object : Option Addr) (descId : DescriptorId) : CastTarget :=
  match uid with
  | none => .incompatible
  | some uid =>
    let primary := D.primaryOf descId
    if D.exposedType descId = uid then
      match object with
      | none => .proxy descId
      | some o => .sameExposed descId o
    else
      let concreteTarget : Bool := D.concreteType descId = uid
      match (if concreteTarget then some primary
        else D.findAliasByPrimary uid (D.name descId) primary) with
      | none => .incompatible
      | some target =>
        match object with
        | none => .proxy target
        | some o =>
          match D.adjustToConcrete descId with
          | none =>
            if primary ≠ descId then .downcastUnavailable target
            else if concreteTarget then .concrete primary o
            else .exposedAlias target (D.subobject target o)
          | some g =>
            if concreteTarget then .concrete primary (g o)
            else .exposedAlias target (D.subobject target (g o))

def CastTarget.compatible : CastTarget → Bool
  | .incompatible => false
  | _ => true

section Casts

variable (D : Descriptors)

def incompatibleMessage : String :=
  "AnyBean::cast: the bean is not compatible with the requested type."

def downcastMessage : String :=
  "AnyBean::cast: cannot cast from virtual base — downcast unavailable."

/-- `AnyBean::cast`. -/
def cast (b : AnyBean) (uid : Option TypeId) : Except Failure Bean :=
  match D.resolveCastTarget uid b.object b.descId with
  | .incompatible => .error (.resolutionError incompatibleMessage)
  | .downcastUnavailable _ => .error (.resolutionError downcastMessage)
  | .proxy descId => .ok (.proxy b.scopeNameId descId)
  | .sameExposed descId o | .concrete descId o | .exposedAlias descId o => .ok (.direct o descId)

/-- The handle that the closure of `on<T>` passes to the callback, if it calls it. -/
def typedView (b : AnyBean) (uid : Option TypeId) : Option Bean :=
  if (D.resolveCastTarget uid b.object b.descId).compatible then
    some (match b.object with
      | none => .proxy b.scopeNameId b.descId
      | some o => .direct o b.descId)
  else none

end Casts

/-! ## Access -/

/-- `proxyResolve_`: null for a scope that is missing or stopped, and during the teardown for
    a bean that is gone. -/
def proxyResolve (D : Descriptors) (S : Sessions) (scopeNameId : NameId) (descId : DescriptorId) :
    Except Failure (Option Addr) :=
  match S.findScope scopeNameId with
  | none => .ok none
  | some (state, find) =>
    if state = .stopped then .ok none
    else match find (D.sessionSlot (D.primaryOf descId)) with
      | some mem => .ok (some (D.subobject descId mem))
      | none =>
        if state = .stopping then .ok none
        else (S.materializeSessionInstance scopeNameId (D.primaryOf descId)).map fun mem =>
          some (D.subobject descId mem)

/-- `operator->`; null is `none`. -/
def arrow (D : Descriptors) (S : Sessions) : Bean → Except Failure (Option Addr)
  | .direct o _ => .ok (some o)
  | .proxy scopeNameId descId => proxyResolve D S scopeNameId descId

/-! ## Bean events -/

/-- The beans of which events are dispatched, with the address of the object. -/
inductive EventBean
  | singleton (descId : DescriptorId) (mem : Addr)
  /-- A prototype, with the descriptor through which it was resolved. -/
  | prototype (descId : DescriptorId) (mem : Addr)
  | session (scopeNameId : NameId) (descId : DescriptorId) (mem : Addr)
  | boundSession (scopeNameId : NameId) (descId : DescriptorId) (mem : Addr)
  | threadLocal (descId : DescriptorId) (mem : Addr)
  | runtimeBound (descId : DescriptorId) (mem : Addr)
  deriving DecidableEq, Repr

/-- The phases of the creation of a bean. -/
def creation : LifecyclePhase → Bool
  | .initialized | .created => true
  | .preDestroy | .destroyed => false

namespace EventBean

def mem : EventBean → Addr
  | singleton _ m | prototype _ m | session _ _ m | boundSession _ _ m | threadLocal _ m
  | runtimeBound _ m => m

/-- The handle that is dispatched. A prototype resolved through an alias is created under the
    alias and destroyed under its primary; session beans are dispatched as proxies, but for the
    creation of bound ones. -/
def anyBean (D : Descriptors) (phase : LifecyclePhase) : EventBean → AnyBean
  | singleton d m | threadLocal d m | runtimeBound d m => ⟨some m, d, kUnnamed⟩
  | prototype d m =>
    if creation phase then
      if D.primaryOf d = d then ⟨some m, d, kUnnamed⟩ else ⟨some (D.subobject d m), d, kUnnamed⟩
    else ⟨some m, D.primaryOf d, kUnnamed⟩
  | session sc d _ => ⟨none, d, sc⟩
  | boundSession sc d m => if creation phase then ⟨some m, d, kUnnamed⟩ else ⟨none, d, sc⟩

/-- The scope holds the object of the bean. -/
def Holds (D : Descriptors) (S : Sessions) (sc : NameId) (d : DescriptorId) (m : Addr) : Prop :=
  ∃ state find, S.findScope sc = some (state, find) ∧ state ≠ .stopped ∧
    find (D.sessionSlot d) = some m

/-- All beans but prototypes are materialized under their primary, and a session bean is in
    the store of its scope while its events are dispatched. -/
def Valid (D : Descriptors) (S : Sessions) : EventBean → Prop
  | singleton d _ | threadLocal d _ | runtimeBound d _ => D.primaryOf d = d
  | prototype _ _ => True
  | session sc d m | boundSession sc d m => D.primaryOf d = d ∧ Holds D S sc d m

end EventBean

/-- A bean event. -/
structure BeanEvent (D : Descriptors) (S : Sessions) where
  bean : EventBean
  phase : LifecyclePhase
  valid : bean.Valid D S

def BeanEvent.anyBean {D : Descriptors} {S : Sessions} (e : BeanEvent D S) : AnyBean :=
  e.bean.anyBean D e.phase

/-! ## The addresses that handles give -/

section Addresses

variable {D : Descriptors} {S : Sessions}

/-- A primary exposes the whole object. -/
theorem subobject_primary {d : DescriptorId} (hd : D.primaryOf d = d) (mem : Addr) :
    D.subobject d mem = mem := by
  rw [DescriptorFields.subobject, (D.primary_unadjusted d hd).1]

/-- The handle of an event points at the subobject that its descriptor exposes, or it is a
    proxy of a primary whose scope holds the object. -/
theorem anyBean_cases (e : BeanEvent D S) :
    e.anyBean.object = some (D.subobject e.anyBean.descId e.bean.mem) ∨
    e.anyBean.object = none ∧ D.primaryOf e.anyBean.descId = e.anyBean.descId ∧
      EventBean.Holds D S e.anyBean.scopeNameId e.anyBean.descId e.bean.mem := by
  obtain ⟨bean, phase, hvalid⟩ := e
  unfold BeanEvent.anyBean
  cases bean with
  | singleton d m => exact .inl (congrArg some (subobject_primary hvalid m).symm)
  | threadLocal d m => exact .inl (congrArg some (subobject_primary hvalid m).symm)
  | runtimeBound d m => exact .inl (congrArg some (subobject_primary hvalid m).symm)
  | prototype d m =>
    left
    simp only [EventBean.anyBean, EventBean.mem]
    split
    · split
      · rename_i hd
        exact congrArg some (subobject_primary hd m).symm
      · rfl
    · exact congrArg some (subobject_primary (D.primaryOf_primaryOf d) m).symm
  | session sc d m => exact .inr ⟨rfl, hvalid⟩
  | boundSession sc d m =>
    simp only [EventBean.anyBean, EventBean.mem]
    split
    · exact .inl (congrArg some (subobject_primary hvalid.1 m).symm)
    · exact .inr ⟨rfl, hvalid⟩

/-- A proxy of any descriptor of a bean gives the subobject that this descriptor exposes. -/
theorem proxyResolve_of_holds {sc : NameId} {d t : DescriptorId} {mem : Addr}
    (hholds : EventBean.Holds D S sc d mem) (ht : D.primaryOf t = d) :
    proxyResolve D S sc t = .ok (some (D.subobject t mem)) := by
  obtain ⟨state, find, hscope, hstate, hfind⟩ := hholds
  simp only [proxyResolve, hscope, hstate, if_false, ht, hfind]

/-- The map back from the subobject of a descriptor gives the object. -/
theorem adjustToConcrete_subobject {d : DescriptorId} {g : Addr → Addr}
    (hg : D.adjustToConcrete d = some g) (mem : Addr) : g (D.subobject d mem) = mem := by
  obtain ⟨f, hf, hinv⟩ := D.adjustToConcrete_adjustToExposed d g hg
  rw [DescriptorFields.subobject, hf]
  exact hinv mem

/-- A cast of a direct handle points at the subobject of the requested type. -/
theorem cast_direct {b : AnyBean} {uid : TypeId} {c : Bean} {mem : Addr}
    (hobj : b.object = some (D.subobject b.descId mem)) (hc : cast D b (some uid) = .ok c) :
    ∃ t, D.exposingDescriptor b.descId uid = some t ∧ c = .direct (D.subobject t mem) t := by
  unfold DescriptorTypes.exposingDescriptor
  simp only [cast, DescriptorFields.resolveCastTarget, hobj] at hc
  by_cases hsame : D.exposedType b.descId = uid
  · simp only [hsame, if_true, Except.ok.injEq] at hc ⊢
    exact ⟨_, rfl, hc.symm⟩
  by_cases hconcrete : D.concreteType b.descId = uid
  · -- The concrete type: the pointer is taken back to the object.
    simp only [hsame, hconcrete, if_false, decide_true, if_true] at hc ⊢
    refine ⟨_, rfl, ?_⟩
    rw [subobject_primary (D.primaryOf_primaryOf _)]
    cases hg : D.adjustToConcrete b.descId with
    | none =>
      by_cases hprimary : D.primaryOf b.descId = b.descId
      · simp only [hg, hprimary, ne_eq, not_true, if_false, Except.ok.injEq,
          subobject_primary hprimary] at hc ⊢
        exact hc.symm
      · simp only [hg, ne_eq, hprimary, not_false_iff, if_true] at hc
        cases hc
    | some g =>
      simp only [hg, adjustToConcrete_subobject hg, Except.ok.injEq] at hc
      exact hc.symm
  · -- A base: from the object on to the subobject of the alias.
    simp only [hsame, hconcrete, if_false, decide_false, Bool.false_eq_true] at hc ⊢
    cases halias : D.findAliasByPrimary uid (D.name b.descId) (D.primaryOf b.descId) with
    | none =>
      simp only [halias] at hc
      cases hc
    | some t =>
      refine ⟨t, rfl, ?_⟩
      cases hg : D.adjustToConcrete b.descId with
      | none =>
        by_cases hprimary : D.primaryOf b.descId = b.descId
        · simp only [halias] at hc
          simp only [hg, hprimary, ne_eq, not_true, if_false, Except.ok.injEq,
            subobject_primary hprimary] at hc
          exact hc.symm
        · simp only [halias, hg, ne_eq, hprimary, not_false_iff, if_true] at hc
          cases hc
      | some g =>
        simp only [halias, hg, adjustToConcrete_subobject hg, Except.ok.injEq] at hc
        exact hc.symm

/-- A cast of a proxy is a proxy of the descriptor that exposes the requested type. -/
theorem cast_proxy {b : AnyBean} {uid : TypeId} {c : Bean} (hobj : b.object = none)
    (hc : cast D b (some uid) = .ok c) :
    ∃ t, D.exposingDescriptor b.descId uid = some t ∧ c = .proxy b.scopeNameId t := by
  unfold DescriptorTypes.exposingDescriptor
  simp only [cast, DescriptorFields.resolveCastTarget, hobj] at hc
  by_cases hsame : D.exposedType b.descId = uid
  · simp only [hsame, if_true, Except.ok.injEq] at hc ⊢
    exact ⟨_, rfl, hc.symm⟩
  by_cases hconcrete : D.concreteType b.descId = uid
  · simp only [hsame, hconcrete, if_false, decide_true, if_true, Except.ok.injEq] at hc ⊢
    exact ⟨_, rfl, hc.symm⟩
  · simp only [hsame, hconcrete, if_false, decide_false, Bool.false_eq_true] at hc ⊢
    cases halias : D.findAliasByPrimary uid (D.name b.descId) (D.primaryOf b.descId) with
    | none =>
      simp only [halias] at hc
      cases hc
    | some t =>
      simp only [halias, Except.ok.injEq] at hc
      exact ⟨t, rfl, hc.symm⟩

/-- A cast of the handle of an event gives the address of the subobject of the requested
    type in the object of the event. -/
theorem arrow_cast (e : BeanEvent D S) {uid : TypeId} {c : Bean}
    (hc : cast D e.anyBean (some uid) = .ok c) :
    ∃ t, D.exposingDescriptor e.anyBean.descId uid = some t ∧
      arrow D S c = .ok (some (D.subobject t e.bean.mem)) := by
  rcases anyBean_cases e with hobj | ⟨hobj, hprimary, hholds⟩
  · obtain ⟨t, ht, rfl⟩ := cast_direct hobj hc
    exact ⟨t, ht, rfl⟩
  · obtain ⟨t, ht, rfl⟩ := cast_proxy hobj hc
    have hsame := DescriptorTypes.primaryOf_exposingDescriptor (D.primaryOf_primaryOf _) ht
    exact ⟨t, ht, proxyResolve_of_holds hholds (hsame.trans hprimary)⟩

/-- The callback of a typed listener is called where the cast succeeds, and gets the address
    that the handle of the event refers to. -/
theorem arrow_view (e : BeanEvent D S) {uid : TypeId} {c : Bean}
    (hc : cast D e.anyBean (some uid) = .ok c) : ∃ v, typedView D e.anyBean (some uid) = some v ∧
      arrow D S v = .ok (some (D.subobject e.anyBean.descId e.bean.mem)) := by
  have hcompatible :
      (D.resolveCastTarget (some uid) e.anyBean.object e.anyBean.descId).compatible = true := by
    unfold cast at hc
    split at hc
    · cases hc
    all_goals (rename_i htarget; rw [htarget]; rfl)
  unfold typedView
  rw [if_pos hcompatible]
  rcases anyBean_cases e with hobj | ⟨hobj, hprimary, hholds⟩
  · rw [hobj]
    exact ⟨_, rfl, rfl⟩
  · rw [hobj]
    exact ⟨_, rfl, proxyResolve_of_holds hholds hprimary⟩

/-- For every bean event, of any lifetime and phase, and every type to which its handle can be
    cast: the cast gives the address of the subobject of the type, and the handle that a typed
    listener gets gives the same address exactly if this subobject lies where the subobject
    lies that the descriptor of the event exposes. -/
theorem typed_view_iff (D : Descriptors) (S : Sessions) (e : BeanEvent D S) (uid : TypeId)
    (c : Bean) (hc : cast D e.anyBean (some uid) = .ok c) :
    ∃ t v, D.exposingDescriptor e.anyBean.descId uid = some t ∧
      typedView D e.anyBean (some uid) = some v ∧
      arrow D S c = .ok (some (D.subobject t e.bean.mem)) ∧
      (arrow D S v = arrow D S c ↔
        D.subobject t e.bean.mem = D.subobject e.anyBean.descId e.bean.mem) := by
  obtain ⟨t, ht, hcast⟩ := arrow_cast e hc
  obtain ⟨v, hv, hview⟩ := arrow_view e hc
  refine ⟨t, v, ht, hv, hcast, ?_⟩
  rw [hcast, hview, Except.ok.injEq, Option.some.injEq, eq_comm]

end Addresses

/-! ## A bean with two bases -/

/-- The descriptors of a class with two bases: 0 is the class, 1 its first base, 2 its second
    base, which lies 8 bytes into the object. The type of each descriptor is its number. -/
def twoBases : Descriptors where
  exposedType d := d
  concreteType _ := 0
  name _ := kUnnamed
  primaryDescriptor d := if d = 1 ∨ d = 2 then some 0 else none
  sessionSlot _ := 0
  adjustToExposed d := if d = 1 then some id else if d = 2 then some (· + 8) else none
  adjustToConcrete d := if d = 1 then some id else if d = 2 then some (· - 8) else none
  candidatesFor uid _ := [uid]
  primaryOf_primaryOf d := by
    by_cases h : d = 1 ∨ d = 2
    · simp [DescriptorTypes.primaryOf, h]
    · simp [DescriptorTypes.primaryOf, h]
  primary_unadjusted d hd := by
    by_cases h : d = 1 ∨ d = 2
    · rcases h with rfl | rfl <;> simp [DescriptorTypes.primaryOf] at hd
    · simp only [not_or] at h
      simp [h.1, h.2]
  adjustToConcrete_adjustToExposed d g hg := by
    by_cases h1 : d = 1
    · simp only [h1, if_true, Option.some.injEq] at hg ⊢
      exact ⟨id, rfl, fun p => by rw [← hg]; rfl⟩
    · by_cases h2 : d = 2
      · simp only [h2, if_true] at hg ⊢
        refine ⟨(· + 8), rfl, fun p => ?_⟩
        simp at hg
        rw [← hg]
        exact Nat.add_sub_cancel p 8
      · simp [h1, h2] at hg

/-- No scopes. -/
def noSessions : Sessions where
  findScope _ := none
  materializeSessionInstance _ _ := .error .userException

/-- The singleton at address 1000 is created. -/
def singletonCreated : BeanEvent twoBases noSessions := ⟨.singleton 0 1000, .created, rfl⟩

/-- A listener of the first base, which lies at the start of the object, gets its address. -/
theorem first_base_view_agrees : ∃ t v c,
    cast twoBases singletonCreated.anyBean (some 1) = .ok c ∧
    twoBases.exposingDescriptor singletonCreated.anyBean.descId 1 = some t ∧
    typedView twoBases singletonCreated.anyBean (some 1) = some v ∧
    arrow twoBases noSessions v = arrow twoBases noSessions c := by
  obtain ⟨t, v, ht, hv, _, hiff⟩ :=
    typed_view_iff twoBases noSessions singletonCreated 1 (.direct 1000 1) rfl
  refine ⟨t, v, .direct 1000 1, rfl, ht, hv, hiff.2 ?_⟩
  obtain rfl : t = 1 := by
    have : twoBases.exposingDescriptor singletonCreated.anyBean.descId 1 = some 1 := rfl
    rw [this] at ht
    exact (Option.some.inj ht).symm
  rfl

/-- A listener of the second base gets the address of the whole object, 8 bytes off. -/
theorem second_base_view_wrong : ∃ v c,
    cast twoBases singletonCreated.anyBean (some 2) = .ok c ∧
    typedView twoBases singletonCreated.anyBean (some 2) = some v ∧
    arrow twoBases noSessions c = .ok (some 1008) ∧
    arrow twoBases noSessions v = .ok (some 1000) :=
  ⟨.direct 1000 0, .direct 1008 2, rfl, rfl, rfl, rfl⟩

end Ctorium.Handles
