import Ctorium.Handles
import Ctorium.Prototype
import Ctorium.Startup.Tables

/-!
# The laws of casts

A handle carries a descriptor, and a cast looks for the descriptor of the same bean that exposes
the requested type: its own one, the primary for the concrete type, or else an alias of that
primary. A direct handle takes its pointer back to the object and on to the new subobject; from a
virtual base there is no way back. The result refers to the slot, the scope and the registry of the
handle, and counts as one more handle of a prototype.

* `CastLaws`: `tryCast` agrees with `cast`, two casts in a row are one cast, a cast back gives the
  handle itself, and a prototype is retained once by each cast that succeeds.
* `cast_laws`: they hold of every handle, in every run in which no submitted type has a direct
  public base of its own qualified name.
* `cast_back_differs`: a type with a base of its own qualified name gets a second descriptor for
  its concrete type.
-/

namespace Ctorium.Casts

open Handles (DescriptorTypes DescriptorFields CastTarget)
open Handles.DescriptorTypes (primaryOf_of_some primaryOf_of_none)
open InjectionPoints
open Prototype (SlotId kInvalidSlotId)
open Registry (IsOrphan Kin Families)
open Startup (machine TellsApart KinState)

/-! ## The tables -/

/-- The maps between an object and the base that an alias exposes; there is no map back from a
    virtual base. -/
structure BaseLayout where
  adjustToExposed : DescriptorId → Addr → Addr
  adjustToConcrete : DescriptorId → Option (Addr → Addr)
  inverse : ∀ d g, adjustToConcrete d = some g → ∀ p, g (adjustToExposed d p) = p

/-- What handles read of a registry. Primaries and bound instances are not adjusted. -/
def fields (L : BaseLayout) (r : Registry) : DescriptorFields where
  toDescriptorTypes := .of r
  sessionSlot d := (r.descriptors[d]?.bind Descriptor.sessionSlot).getD kInvalidSessionSlot
  adjustToExposed d :=
    if r.descriptors[d]?.any Descriptor.isExposedAlias then some (L.adjustToExposed d) else none
  adjustToConcrete d :=
    if r.descriptors[d]?.any Descriptor.isExposedAlias then L.adjustToConcrete d else none

/-! ## Handles -/

abbrev RegistryId := ℕ

/-- `registry_`: a handle of a prototype points to the store of its registry instead. -/
inductive Anchor
  | registry (id : RegistryId)
  | prototypeStore (registry : RegistryId)
  deriving DecidableEq, Repr

/-- The fields of `Bean`; the default is the empty handle. -/
structure Bean where
  object : Option Addr := none
  /-- The low word of `bits_`: the slot of form 1, or the scope name of forms 2 and 3. -/
  word : ℕ := 0
  descId : DescriptorId := 0
  anchor : Option Anchor := none
  deriving DecidableEq, Repr

namespace Bean

def isPrototype (b : Bean) : Bool := b.word ≠ kInvalidSlotId && b.object.isSome

def registry (b : Bean) : Option RegistryId :=
  match b.isPrototype, b.anchor with
  | true, some (.prototypeStore id) => some id
  | false, some (.registry id) => some id
  | _, _ => none

def makeDirect (instanceAddr : Addr) (slot : SlotId) (descId : DescriptorId) (reg : RegistryId) :
    Bean where
  object := some instanceAddr
  word := slot
  descId := descId
  anchor := some (if slot ≠ kInvalidSlotId then .prototypeStore reg else .registry reg)

/-- A session handle. -/
def makeProxy (scopeNameId : NameId) (descId : DescriptorId) (reg : RegistryId) : Bean where
  word := scopeNameId
  descId := descId
  anchor := some (.registry reg)

def kThreadLocalSentinel : NameId := 2 ^ 32 - 2

def makeThreadLocal (descId : DescriptorId) (reg : RegistryId) : Bean where
  word := kThreadLocalSentinel
  descId := descId
  anchor := some (.registry reg)

end Bean

/-- The 32-bit reference counts of the slots. -/
abbrev Refcounts := SlotId → UInt32

/-- `retainIfPrototype` with its guard. -/
def retainIfPrototype (refs : Refcounts) (b : Bean) : Refcounts :=
  if b.isPrototype then Function.update refs b.word (refs b.word + 1) else refs

/-! ## Casts -/

section Casts

variable (D : DescriptorFields)

def castTarget (b : Bean) (uid : Option TypeId) : CastTarget :=
  match b.registry with
  | none => .incompatible
  | some _ => D.resolveCastTarget uid b.object b.descId

def incompatibleMessage : String :=
  "Bean::cast: the bean is not compatible with the requested type."

def downcastMessage : String :=
  "Bean::cast: cannot cast from virtual base — downcast unavailable."

/-- `Bean::cast`, with the counts after it. -/
def cast (refs : Refcounts) (b : Bean) (uid : Option TypeId) : Except Failure Bean × Refcounts :=
  match castTarget D b uid with
  | .incompatible => (.error (.resolutionError incompatibleMessage), refs)
  | .downcastUnavailable _ => (.error (.resolutionError downcastMessage), refs)
  | .proxy descId => (.ok { b with object := none, descId := descId }, refs)
  | .sameExposed _ o =>
    let result := { b with object := some o }
    (.ok result, retainIfPrototype refs result)
  | .concrete descId o | .exposedAlias descId o =>
    let result : Bean := ⟨some o, b.word, descId, b.anchor⟩
    (.ok result, retainIfPrototype refs result)

/-- `Bean::tryCast`, with the counts after it. -/
def tryCast (refs : Refcounts) (b : Bean) (uid : Option TypeId) : Option Bean × Refcounts :=
  match castTarget D b uid with
  | .incompatible | .downcastUnavailable _ => (none, refs)
  | .proxy descId => (some { b with object := none, descId := descId }, refs)
  | .sameExposed _ o =>
    let result := { b with object := some o }
    (some result, retainIfPrototype refs result)
  | .concrete descId o | .exposedAlias descId o =>
    let result : Bean := ⟨some o, b.word, descId, b.anchor⟩
    (some result, retainIfPrototype refs result)

/-- The laws of the casts of a handle, for all types. -/
structure CastLaws (b : Bean) : Prop where
  tryCast_eq : ∀ refs uid, tryCast D refs b uid =
    ((cast D refs b uid).1.toOption, (cast D refs b uid).2)
  path : ∀ refs refs' refs'' uid vid c e, (cast D refs b uid).1 = .ok c →
    (cast D refs' c vid).1 = .ok e → (cast D refs'' b vid).1 = .ok e
  back : ∀ refs refs' uid c e, (cast D refs b uid).1 = .ok c →
    (cast D refs' c (some (D.exposedType b.descId))).1 = .ok e → e = b
  keeps : ∀ refs uid c, (cast D refs b uid).1 = .ok c → c.word = b.word ∧ c.anchor = b.anchor ∧
    c.object.isSome = b.object.isSome ∧ c.registry = b.registry
  retains : ∀ refs uid c, (cast D refs b uid).1 = .ok c → (cast D refs b uid).2 =
    if b.isPrototype then Function.update refs b.word (refs b.word + 1) else refs
  fails : ∀ refs uid e, (cast D refs b uid).1 = .error e → (cast D refs b uid).2 = refs

end Casts

/-! ## The descriptors of a bean -/

section Tables

variable {H : IdentityHashes} {L : BaseLayout} {r : Registry} {d t p : DescriptorId}
  {uid vid : TypeId}

theorem primaryDescriptor_eq_some : (fields L r).primaryDescriptor d = some p ↔
    ∃ desc, r.descriptors[d]? = some desc ∧ desc.primaryDescriptor = some p :=
  Option.bind_eq_some_iff

/-- The primary of a descriptor is its own primary, and exposes the concrete type. -/
theorem primary_of_some (h : Families r.descriptors)
    (hp : (fields L r).primaryDescriptor d = some p) : (fields L r).primaryDescriptor p = some p ∧
      (fields L r).exposedType p = (fields L r).concreteType d ∧
      r.descriptors[p]?.any Descriptor.isExposedAlias = false := by
  obtain ⟨desc, hdesc, hprimary⟩ := primaryDescriptor_eq_some.mp hp
  obtain ⟨dp, hdp, hconcrete, -⟩ := h.primary d desc p hdesc hprimary
  refine ⟨primaryDescriptor_eq_some.mpr ⟨dp, hdp.found, hdp.primary⟩, ?_, ?_⟩
  · simp only [fields, DescriptorTypes.of, hdp.found, hdesc, Option.map_some, Option.getD_some]
    exact hdp.concrete.trans hconcrete
  · simp only [hdp.found, Option.any_some, hdp.not_alias]

/-- The descriptors with one primary expose different types. -/
theorem eq_of_primary (h : Families r.descriptors)
    (hd : (fields L r).primaryDescriptor d = some p)
    (ht : (fields L r).primaryDescriptor t = some p)
    (htype : (fields L r).exposedType t = (fields L r).exposedType d) : t = d := by
  obtain ⟨desc, hdesc, hprimary⟩ := primaryDescriptor_eq_some.mp hd
  obtain ⟨desc', hdesc', hprimary'⟩ := primaryDescriptor_eq_some.mp ht
  simp only [fields, DescriptorTypes.of, hdesc, hdesc', Option.map_some, Option.getD_some] at htype
  exact h.unique d t desc desc' p hdesc hdesc' hprimary hprimary' htype

/-- The descriptors with one primary have one name. -/
theorem name_of_primary (h : Families r.descriptors)
    (hd : (fields L r).primaryDescriptor d = some p)
    (ht : (fields L r).primaryDescriptor t = some p) :
    (fields L r).name t = (fields L r).name d := by
  obtain ⟨desc, hdesc, hprimary⟩ := primaryDescriptor_eq_some.mp hd
  obtain ⟨desc', hdesc', hprimary'⟩ := primaryDescriptor_eq_some.mp ht
  obtain ⟨dp, hdp, -, hname, -⟩ := h.primary d desc p hdesc hprimary
  obtain ⟨dp', hdp', -, hname', -⟩ := h.primary t desc' p hdesc' hprimary'
  obtain rfl := Option.some.inj (hdp.found.symm.trans hdp'.found)
  simp only [fields, DescriptorTypes.of, hdesc, hdesc', Option.map_some, Option.getD_some]
  exact hname'.symm.trans hname

/-- A candidate exposes the type of its key. -/
theorem exposedType_of_candidate (hr : r.Indexed) {nameId : NameId}
    (h : t ∈ (fields L r).candidatesFor uid nameId) : (fields L r).exposedType t = uid := by
  have hinserted : t ∈ r.typeIndex.inserted uid nameId := List.mem_append_left _ h
  obtain ⟨desc, hdesc, htype, -⟩ :=
    mem_keyIds.mp ((hr.inserted uid nameId).mem_iff.mp hinserted)
  simp only [fields, DescriptorTypes.of, hdesc, Option.map_some, Option.getD_some]
  exact htype

/-- An alias that the lookup finds has the primary, and exposes the type. -/
theorem of_findAliasByPrimary (hr : r.Indexed) {nameId : NameId}
    (h : (fields L r).findAliasByPrimary uid nameId p = some t) :
    (fields L r).primaryDescriptor t = some p ∧ (fields L r).exposedType t = uid := by
  obtain ⟨hprimary, nameId', hmem⟩ := DescriptorTypes.of_findAliasByPrimary h
  exact ⟨hprimary, exposedType_of_candidate hr hmem⟩

/-- The lookup finds the alias of the primary under its name. -/
theorem findAliasByPrimary_eq_some (h : Families r.descriptors) (hr : r.Indexed)
    (hflushed : r.Flushed) (ht : (fields L r).primaryDescriptor t = some p) :
    (fields L r).findAliasByPrimary ((fields L r).exposedType t) ((fields L r).name t) p =
      some t := by
  obtain ⟨desc, hdesc, -⟩ := primaryDescriptor_eq_some.mp ht
  have hmem : t ∈ (fields L r).candidatesFor ((fields L r).exposedType t)
      ((fields L r).name t) := by
    refine (hflushed.mem_candidates hr).mpr (mem_keyIds.mpr ⟨desc, hdesc, ?_, ?_⟩)
    · simp only [fields, DescriptorTypes.of, hdesc, Option.map_some, Option.getD_some]
    · simp only [fields, DescriptorTypes.of, hdesc, Option.map_some, Option.getD_some]
  cases hfind : ((fields L r).candidatesFor ((fields L r).exposedType t)
      ((fields L r).name t)).find? fun d => (fields L r).primaryDescriptor d = some p with
  | none =>
    have hnone := List.find?_eq_none.mp hfind t hmem
    simp [ht] at hnone
  | some t' =>
    have hprimary := List.find?_some hfind
    have htype := exposedType_of_candidate hr (List.mem_of_find?_eq_some hfind)
    simp only [DescriptorTypes.findAliasByPrimary, hfind, Option.some.injEq]
    exact eq_of_primary h ht (by simpa using hprimary) htype

/-- A descriptor without a primary is the only one of its bean. -/
theorem exposingDescriptor_lone (h : Families r.descriptors) (hr : r.Indexed)
    (hd : (fields L r).primaryDescriptor d = none)
    (ht : (fields L r).exposingDescriptor d uid = some t) : t = d := by
  unfold DescriptorTypes.exposingDescriptor at ht
  rw [primaryOf_of_none hd] at ht
  split_ifs at ht
  · exact (Option.some.inj ht).symm
  · exact (Option.some.inj ht).symm
  · -- A primary of another descriptor is its own primary.
    obtain ⟨hprimary, -⟩ := of_findAliasByPrimary hr ht
    have hself := (primary_of_some h hprimary).1
    rw [hd] at hself
    cases hself

/-- Of a bean with a primary, the descriptor is found that exposes the type. -/
theorem exposingDescriptor_iff (h : Families r.descriptors) (hr : r.Indexed)
    (hflushed : r.Flushed) (hd : (fields L r).primaryDescriptor d = some p) :
    (fields L r).exposingDescriptor d uid = some t ↔
      (fields L r).primaryDescriptor t = some p ∧ (fields L r).exposedType t = uid := by
  obtain ⟨hself, hconcrete, -⟩ := primary_of_some h hd
  unfold DescriptorTypes.exposingDescriptor
  rw [primaryOf_of_some hd]
  split_ifs with hexposed htype
  · constructor
    · intro ht
      obtain rfl := Option.some.inj ht
      exact ⟨hd, hexposed⟩
    · rintro ⟨ht, htype⟩
      rw [eq_of_primary h hd ht (htype.trans hexposed.symm)]
  · constructor
    · intro ht
      obtain rfl := Option.some.inj ht
      exact ⟨hself, hconcrete.trans htype⟩
    · rintro ⟨ht, htype'⟩
      rw [eq_of_primary h hself ht (htype'.trans (hconcrete.trans htype).symm)]
  · refine ⟨fun ht => of_findAliasByPrimary hr ht, ?_⟩
    rintro ⟨ht, rfl⟩
    rw [← name_of_primary h hd ht]
    exact findAliasByPrimary_eq_some h hr hflushed ht

/-- Every descriptor of a bean finds the same descriptors of it. -/
theorem exposingDescriptor_trans (h : Families r.descriptors) (hr : r.Indexed)
    (hflushed : r.Flushed) (ht : (fields L r).exposingDescriptor d uid = some t) (vid : TypeId) :
    (fields L r).exposingDescriptor t vid = (fields L r).exposingDescriptor d vid := by
  cases hd : (fields L r).primaryDescriptor d with
  | none => rw [exposingDescriptor_lone h hr hd ht]
  | some p =>
    have hprimary := ((exposingDescriptor_iff h hr hflushed hd).mp ht).1
    refine Option.ext fun t' => ?_
    exact (exposingDescriptor_iff h hr hflushed hprimary).trans
      (exposingDescriptor_iff h hr hflushed hd).symm

end Tables

/-! ## Direct handles -/

/-- The address of the object, from the address of the subobject that a descriptor exposes. -/
def concretePtr (D : DescriptorFields) (d : DescriptorId) (o : Addr) : Option Addr :=
  match D.adjustToConcrete d with
  | some g => some (g o)
  | none => if D.primaryOf d ≠ d then none else some o

/-- The handle with the slot and the registry of another one that exposes the subobject of a
    descriptor. -/
def Bean.exposing (D : DescriptorFields) (b : Bean) (t : DescriptorId) (mem : Addr) : Bean :=
  ⟨some (D.subobject t mem), b.word, t, b.anchor⟩

section Direct

variable {H : IdentityHashes} {L : BaseLayout} {r : Registry} {d t : DescriptorId} {mem : Addr}
  {uid vid : TypeId} {b c : Bean} {refs refs' refs'' : Refcounts}

theorem subobject_of_not_alias (h : r.descriptors[d]?.any Descriptor.isExposedAlias = false) :
    (fields L r).subobject d mem = mem := by
  simp only [DescriptorFields.subobject, fields, h, Bool.false_eq_true, if_false]

/-- An alias that is no orphan has another descriptor as its primary. -/
theorem exists_primary_of_alias (h : Families r.descriptors) (hd : r.LinkedAt d)
    (halias : r.descriptors[d]?.any Descriptor.isExposedAlias = true) :
    ∃ p, (fields L r).primaryDescriptor d = some p ∧ p ≠ d := by
  obtain ⟨desc, hdesc, hdescAlias⟩ := (Option.any_eq_true _ _).mp halias
  cases hprimary : desc.primaryDescriptor with
  | none =>
    obtain ⟨desc', hdesc', horphan⟩ := hd
    obtain rfl := Option.some.inj (hdesc.symm.trans hdesc')
    exact absurd ⟨hdescAlias, hprimary⟩ horphan
  | some p =>
    have hp : (fields L r).primaryDescriptor d = some p :=
      primaryDescriptor_eq_some.mpr ⟨desc, hdesc, hprimary⟩
    refine ⟨p, hp, fun heq => ?_⟩
    subst heq
    rw [(primary_of_some h hp).2.2] at halias
    cases halias

/-- The pointer is taken back to the object, if at all. -/
theorem concretePtr_subobject (h : Families r.descriptors) (hd : r.LinkedAt d) :
    concretePtr (fields L r) d ((fields L r).subobject d mem) = none ∨
      concretePtr (fields L r) d ((fields L r).subobject d mem) = some mem := by
  cases halias : r.descriptors[d]?.any Descriptor.isExposedAlias with
  | false =>
    have hnone : (fields L r).adjustToConcrete d = none := by
      simp only [fields, DescriptorTypes.of, halias, Bool.false_eq_true, if_false]
    rw [subobject_of_not_alias halias, concretePtr, hnone]
    dsimp only
    split_ifs
    · exact .inl rfl
    · exact .inr rfl
  | true =>
    obtain ⟨p, hp, hne⟩ := exists_primary_of_alias (L := L) h hd halias
    have hexposed : (fields L r).subobject d mem = L.adjustToExposed d mem := by
      simp only [DescriptorFields.subobject, fields, halias, if_true]
    have hconcrete : (fields L r).adjustToConcrete d = L.adjustToConcrete d := by
      simp only [fields, DescriptorTypes.of, halias, if_true]
    rw [concretePtr, hexposed, hconcrete]
    cases hg : L.adjustToConcrete d with
    | some g => exact .inr (congrArg some (L.inverse d g hg mem))
    | none =>
      dsimp only
      rw [primaryOf_of_some hp, if_pos hne]
      exact .inl rfl

/-- The primary of a descriptor that is no orphan exposes the whole object. -/
theorem subobject_primaryOf (h : Families r.descriptors) (hd : r.LinkedAt d) :
    (fields L r).subobject ((fields L r).primaryOf d) mem = mem := by
  cases hp : (fields L r).primaryDescriptor d with
  | some p =>
    rw [primaryOf_of_some hp]
    exact subobject_of_not_alias (primary_of_some h hp).2.2
  | none =>
    rw [primaryOf_of_none hp]
    refine subobject_of_not_alias ?_
    by_contra halias
    obtain ⟨p, hp', -⟩ := exists_primary_of_alias (L := L) h hd (by simpa using halias)
    rw [hp] at hp'
    cases hp'

/-- The casts of a direct handle that succeed. -/
theorem cast_direct_iff (h : Families r.descriptors) (hd : r.LinkedAt b.descId)
    (hregistry : b.registry ≠ none)
    (hobject : b.object = some ((fields L r).subobject b.descId mem)) :
    (cast (fields L r) refs b (some uid)).1 = .ok c ↔
      ∃ t, (fields L r).exposingDescriptor b.descId uid = some t ∧
        c = b.exposing (fields L r) t mem ∧
        ((fields L r).exposedType b.descId = uid ∨
          concretePtr (fields L r) b.descId ((fields L r).subobject b.descId mem) = some mem) := by
  obtain ⟨id, hid⟩ := Option.ne_none_iff_exists'.mp hregistry
  have hself : b.exposing (fields L r) b.descId mem =
      { b with object := some ((fields L r).subobject b.descId mem) } := rfl
  simp only [cast, castTarget, hid, DescriptorFields.resolveCastTarget, hobject,
    DescriptorTypes.exposingDescriptor]
  by_cases hsame : (fields L r).exposedType b.descId = uid
  · simp only [hsame, if_true, Option.some.injEq, true_or, and_true, exists_eq_left', hself,
      Except.ok.injEq]
    exact eq_comm
  by_cases hconcrete : (fields L r).concreteType b.descId = uid
  · -- The concrete type: back to the object.
    have hmem : (fields L r).subobject ((fields L r).primaryOf b.descId) mem = mem :=
      subobject_primaryOf h hd
    have hptr : concretePtr (fields L r) b.descId ((fields L r).subobject b.descId mem) = none ∨
        concretePtr (fields L r) b.descId ((fields L r).subobject b.descId mem) = some mem :=
      concretePtr_subobject h hd
    simp only [hsame, hconcrete, if_false, decide_true, if_true, Option.some.injEq, false_or,
      exists_eq_left', Bean.exposing, hmem]
    unfold concretePtr at hptr ⊢
    cases hg : (fields L r).adjustToConcrete b.descId with
    | some g =>
      simp only [hg, Option.some.injEq, reduceCtorEq, false_or] at hptr ⊢
      simp only [hptr, and_true, Except.ok.injEq]
      exact eq_comm
    | none =>
      simp only [hg] at hptr ⊢
      split_ifs at hptr ⊢ with hne
      · simp
      · simp only [Option.some.injEq, false_or] at hptr
        simp only [hptr, and_true, Except.ok.injEq]
        exact eq_comm
  · -- A base: on to the subobject of the alias.
    have hptr : concretePtr (fields L r) b.descId ((fields L r).subobject b.descId mem) = none ∨
        concretePtr (fields L r) b.descId ((fields L r).subobject b.descId mem) = some mem :=
      concretePtr_subobject h hd
    simp only [hsame, hconcrete, if_false, decide_false, Bool.false_eq_true, false_or,
      Bean.exposing]
    cases halias : (fields L r).findAliasByPrimary uid ((fields L r).name b.descId)
        ((fields L r).primaryOf b.descId) with
    | none => simp
    | some t =>
      simp only [Option.some.injEq, exists_eq_left']
      unfold concretePtr at hptr ⊢
      cases hg : (fields L r).adjustToConcrete b.descId with
      | some g =>
        simp only [hg, Option.some.injEq, reduceCtorEq, false_or] at hptr ⊢
        simp only [hptr, and_true, Except.ok.injEq]
        exact eq_comm
      | none =>
        simp only [hg] at hptr ⊢
        split_ifs at hptr ⊢ with hne
        · simp
        · simp only [Option.some.injEq, false_or] at hptr
          simp only [hptr, and_true, Except.ok.injEq]
          exact eq_comm

/-- The casts of a proxy that succeed. -/
theorem cast_proxy_iff {D : DescriptorFields} (hregistry : b.registry ≠ none)
    (hobject : b.object = none) : (cast D refs b (some uid)).1 = .ok c ↔
      ∃ t, D.exposingDescriptor b.descId uid = some t ∧ c = { b with descId := t } := by
  obtain ⟨id, hid⟩ := Option.ne_none_iff_exists'.mp hregistry
  have hkept : ∀ t, ({ b with object := none, descId := t } : Bean) = { b with descId := t } := by
    intro t
    rw [← hobject]
  simp only [cast, castTarget, hid, DescriptorFields.resolveCastTarget, hobject,
    DescriptorTypes.exposingDescriptor]
  by_cases hsame : D.exposedType b.descId = uid
  · simp only [hsame, if_true, Option.some.injEq, exists_eq_left', Except.ok.injEq, hkept]
    exact eq_comm
  by_cases hconcrete : D.concreteType b.descId = uid
  · simp only [hsame, hconcrete, if_false, decide_true, if_true, Option.some.injEq,
      exists_eq_left', Except.ok.injEq, hkept]
    exact eq_comm
  · simp only [hsame, hconcrete, if_false, decide_false, Bool.false_eq_true]
    cases halias : D.findAliasByPrimary uid (D.name b.descId) (D.primaryOf b.descId) with
    | none => simp
    | some t =>
      simp only [Option.some.injEq, exists_eq_left', Except.ok.injEq, hkept]
      exact eq_comm

/-- What a cast finds is no orphan either. -/
theorem linkedAt_of_exposing (h : Families r.descriptors) (hr : r.Indexed)
    (hflushed : r.Flushed) (hd : r.LinkedAt d)
    (ht : (fields L r).exposingDescriptor d uid = some t) : r.LinkedAt t := by
  cases hp : (fields L r).primaryDescriptor d with
  | none => rwa [exposingDescriptor_lone h hr hp ht]
  | some p =>
    have hprimary := ((exposingDescriptor_iff h hr hflushed hp).mp ht).1
    obtain ⟨desc, hdesc, hsome⟩ := primaryDescriptor_eq_some.mp hprimary
    exact ⟨desc, hdesc, fun horphan => absurd (hsome.symm.trans horphan.2) (Option.some_ne_none p)⟩

end Direct

/-! ## The laws -/

/-- The handle is a proxy, or points at the subobject that its descriptor exposes, which is no
    orphan. -/
def Points (L : BaseLayout) (r : Registry) (b : Bean) : Prop :=
  b.object = none ∨ r.LinkedAt b.descId ∧
    ∃ mem, b.object = some ((fields L r).subobject b.descId mem)

section Laws

variable {D : DescriptorFields} {L : BaseLayout} {r : Registry} {b c e : Bean}
  {refs refs' : Refcounts} {uid vid : Option TypeId}

theorem registry_of_eq (hword : c.word = b.word) (hanchor : c.anchor = b.anchor)
    (hobject : c.object.isSome = b.object.isSome) : c.registry = b.registry := by
  unfold Bean.registry Bean.isPrototype
  rw [hword, hanchor, hobject]

/-- A cast of a handle to a type needs a registry, and the identifier of the type. -/
theorem cast_ok_cases (h : (cast D refs b uid).1 = .ok c) :
    b.registry ≠ none ∧ ∃ u, uid = some u := by
  unfold cast castTarget at h
  cases hid : b.registry with
  | none =>
    rw [hid] at h
    cases h
  | some id =>
    rw [hid] at h
    refine ⟨Option.some_ne_none _, ?_⟩
    cases uid with
    | none => cases h
    | some u => exact ⟨u, rfl⟩

/-- The target of a proxy is a proxy, if there is one. -/
theorem resolveCastTarget_none_cases (d : DescriptorId) :
    D.resolveCastTarget uid none d = .incompatible ∨
      ∃ t, D.resolveCastTarget uid none d = .proxy t := by
  cases uid with
  | none => exact .inl rfl
  | some u =>
    simp only [DescriptorFields.resolveCastTarget]
    by_cases hsame : D.exposedType d = u
    · rw [if_pos hsame]
      exact .inr ⟨d, rfl⟩
    · rw [if_neg hsame]
      split
      · exact .inl rfl
      · next t _ => exact .inr ⟨t, rfl⟩

/-- The target of a direct handle is not a proxy. -/
theorem resolveCastTarget_some_ne {o : Addr} (d t : DescriptorId) :
    D.resolveCastTarget uid (some o) d ≠ .proxy t := by
  cases uid with
  | none => simp [DescriptorFields.resolveCastTarget]
  | some u =>
    simp only [DescriptorFields.resolveCastTarget]
    by_cases hsame : D.exposedType d = u
    · rw [if_pos hsame]
      simp
    · rw [if_neg hsame]
      split
      · simp
      · split
        · split_ifs <;> simp
        · split_ifs <;> simp

/-- What a cast that succeeds gives, and how it counts. -/
theorem cast_ok_fields (h : (cast D refs b uid).1 = .ok c) : c.word = b.word ∧
    c.anchor = b.anchor ∧ c.object.isSome = b.object.isSome ∧
      (cast D refs b uid).2 = retainIfPrototype refs c := by
  obtain ⟨hregistry, -⟩ := cast_ok_cases h
  obtain ⟨id, hid⟩ := Option.ne_none_iff_exists'.mp hregistry
  have htarget : castTarget D b uid = D.resolveCastTarget uid b.object b.descId := by
    rw [castTarget, hid]
  unfold cast at h ⊢
  -- A proxy has no subobject: it is cast by descriptors alone, and it retains nothing.
  cases hobject : b.object with
  | none =>
    rw [htarget, hobject] at h ⊢
    obtain heq | ⟨t, heq⟩ : D.resolveCastTarget uid none b.descId = .incompatible ∨
        ∃ t, D.resolveCastTarget uid none b.descId = .proxy t := resolveCastTarget_none_cases _
    · rw [heq] at h
      cases h
    · rw [heq] at h ⊢
      obtain rfl := Except.ok.inj h
      refine ⟨rfl, rfl, rfl, ?_⟩
      simp [retainIfPrototype, Bean.isPrototype]
  | some o =>
    rw [htarget, hobject] at h ⊢
    -- A handle with a subobject never becomes a proxy.
    have hne : ∀ t, D.resolveCastTarget uid (some o) b.descId ≠ .proxy t :=
      resolveCastTarget_some_ne _
    cases heq : D.resolveCastTarget uid (some o) b.descId with
    | proxy t => exact absurd heq (hne t)
    | incompatible =>
      rw [heq] at h
      cases h
    | downcastUnavailable t =>
      rw [heq] at h
      cases h
    | sameExposed t o' =>
      rw [heq] at h
      obtain rfl := Except.ok.inj h
      exact ⟨rfl, rfl, rfl, rfl⟩
    | concrete t o' =>
      rw [heq] at h
      obtain rfl := Except.ok.inj h
      exact ⟨rfl, rfl, rfl, rfl⟩
    | exposedAlias t o' =>
      rw [heq] at h
      obtain rfl := Except.ok.inj h
      exact ⟨rfl, rfl, rfl, rfl⟩

theorem tryCast_eq (D : DescriptorFields) (refs : Refcounts) (b : Bean) (uid : Option TypeId) :
    tryCast D refs b uid = ((cast D refs b uid).1.toOption, (cast D refs b uid).2) := by
  unfold tryCast cast
  split <;> rfl

theorem cast_fails {error : Failure} (h : (cast D refs b uid).1 = .error error) :
    (cast D refs b uid).2 = refs := by
  unfold cast at h ⊢
  split at h
  · rfl
  · rfl
  all_goals cases h

/-- Two casts of a proxy, or of a handle that points, are one cast, and its result points. -/
theorem Points.path (h : Families r.descriptors) (hr : r.Indexed) (hflushed : r.Flushed)
    (hb : Points L r b) {refs'' : Refcounts} (hc : (cast (fields L r) refs b uid).1 = .ok c)
    (he : (cast (fields L r) refs' c vid).1 = .ok e) :
    (cast (fields L r) refs'' b vid).1 = .ok e := by
  obtain ⟨hregistry, u, rfl⟩ := cast_ok_cases hc
  obtain ⟨hregistry', v, rfl⟩ := cast_ok_cases he
  rcases hb with hobject | ⟨hd, mem, hobject⟩
  · obtain ⟨t, ht, rfl⟩ := (cast_proxy_iff hregistry hobject).mp hc
    obtain ⟨t', ht', rfl⟩ := (cast_proxy_iff hregistry' hobject).mp he
    rw [exposingDescriptor_trans h hr hflushed ht] at ht'
    exact (cast_proxy_iff hregistry hobject).mpr ⟨t', ht', rfl⟩
  · obtain ⟨t, ht, rfl, hback⟩ := (cast_direct_iff h hd hregistry hobject).mp hc
    have hlinked := linkedAt_of_exposing h hr hflushed hd ht
    obtain ⟨t', ht', rfl, hback'⟩ := (cast_direct_iff h hlinked hregistry' rfl).mp he
    refine (cast_direct_iff h hd hregistry hobject).mpr ⟨t', ?_, rfl, ?_⟩
    · rw [← exposingDescriptor_trans h hr hflushed ht]
      exact ht'
    · rcases hback with hsame | hptr
      · -- The first cast has changed nothing.
        obtain rfl : t = b.descId := by
          rw [DescriptorTypes.exposingDescriptor, if_pos hsame] at ht
          exact (Option.some.inj ht).symm
        exact hback'
      · exact .inr hptr

theorem Points.cast (h : Families r.descriptors) (hr : r.Indexed) (hflushed : r.Flushed)
    (hb : Points L r b) (hc : (cast (fields L r) refs b uid).1 = .ok c) : Points L r c := by
  obtain ⟨hregistry, u, rfl⟩ := cast_ok_cases hc
  rcases hb with hobject | ⟨hd, mem, hobject⟩
  · obtain ⟨t, -, rfl⟩ := (cast_proxy_iff hregistry hobject).mp hc
    exact .inl hobject
  · obtain ⟨t, ht, rfl, -⟩ := (cast_direct_iff h hd hregistry hobject).mp hc
    exact .inr ⟨linkedAt_of_exposing h hr hflushed hd ht, mem, rfl⟩

/-- A cast to the type that the descriptor exposes gives the handle itself. -/
theorem cast_exposedType (hregistry : b.registry ≠ none) :
    (Casts.cast D refs b (some (D.exposedType b.descId))).1 = .ok b := by
  obtain ⟨id, hid⟩ := Option.ne_none_iff_exists'.mp hregistry
  obtain ⟨object, word, descId, anchor⟩ := b
  simp only [Casts.cast, castTarget, hid, DescriptorFields.resolveCastTarget, if_true]
  cases object <;> rfl

/-- The laws hold of a handle that points, in tables whose families are complete. -/
theorem Points.castLaws (h : Families r.descriptors) (hr : r.Indexed) (hflushed : r.Flushed)
    (hb : Points L r b) : CastLaws (fields L r) b where
  tryCast_eq refs uid := tryCast_eq (fields L r) refs b uid
  path _ _ _ _ _ _ _ hc he := hb.path h hr hflushed hc he
  back refs refs' uid c e hc he := by
    have hboth : (Casts.cast (fields L r) refs b (some ((fields L r).exposedType b.descId))).1 =
        .ok e := hb.path h hr hflushed hc he
    rw [cast_exposedType (cast_ok_cases hc).1] at hboth
    exact (Except.ok.inj hboth).symm
  keeps refs uid c hc := by
    obtain ⟨hword, hanchor, hobject, -⟩ := cast_ok_fields hc
    exact ⟨hword, hanchor, hobject, registry_of_eq hword hanchor hobject⟩
  retains refs uid c hc := by
    obtain ⟨hword, -, hobject, hrefs⟩ := cast_ok_fields hc
    have hprototype : c.isPrototype = b.isPrototype := by
      rw [Bean.isPrototype, hword, hobject, Bean.isPrototype]
    rw [hrefs, retainIfPrototype, hprototype, hword]
  fails _ _ _ := cast_fails

end Laws

/-! ## All handles of a run -/

/-- The handles that a program has in a state. The type of a handle is the one that its descriptor
    exposes. -/
inductive Held (H : IdentityHashes) (L : BaseLayout) : Startup.State → Bean → Prop
  /-- A singleton or a prototype that has been resolved: the handle points at the subobject that
      the selected descriptor exposes. -/
  | resolved {s : Startup.State} {scope : Option ScopeId} {typeId : TypeId} {nameId : NameId}
    {d : DescriptorId} {mem : Addr} {slot : SlotId} {reg : RegistryId} :
    machine.ReachableBy (TellsApart H) s → s.context.select scope typeId nameId = .ok d →
    Held H L s (.makeDirect ((fields L s.core).subobject d mem) slot d reg)
  /-- The object of an event: its descriptor is not an alias. -/
  | announced {s : Startup.State} {d : DescriptorId} {desc : Descriptor} {mem : Addr}
    {reg : RegistryId} : machine.ReachableBy (TellsApart H) s → s.core.started = true →
    s.core.descriptors[d]? = some desc → desc.isExposedAlias = false →
    Held H L s (.makeDirect mem kInvalidSlotId d reg)
  /-- A session bean that has been resolved, or is resolved later. -/
  | proxy {s : Startup.State} {scopeNameId : NameId} {d : DescriptorId} {reg : RegistryId} :
    machine.ReachableBy (TellsApart H) s → s.core.started = true →
    Held H L s (.makeProxy scopeNameId d reg)
  | threadLocal {s : Startup.State} {d : DescriptorId} {reg : RegistryId} :
    machine.ReachableBy (TellsApart H) s → s.core.started = true →
    Held H L s (.makeThreadLocal d reg)
  | cast {s : Startup.State} {b c : Bean} {refs : Refcounts} {uid : Option TypeId} :
    Held H L s b → (cast (fields L s.core) refs b uid).1 = .ok c → Held H L s c
  | later {s s' : Startup.State} {b : Bean} {a : Startup.Action} :
    Held H L s b → TellsApart H s a → machine.step s a = some s' → Held H L s' b

section Held

variable {H : IdentityHashes} {L : BaseLayout} {s : Startup.State} {b : Bean}

/-- A longer table has the same subobjects. -/
theorem Points.of_prefix {r r' : Registry} (h : Points L r b)
    (hds : r.descriptors <+: r'.descriptors) : Points L r' b := by
  rcases h with hobject | ⟨hd, mem, hobject⟩
  · exact .inl hobject
  · refine .inr ⟨hd.of_prefix hds, mem, ?_⟩
    obtain ⟨desc, hdesc, -⟩ := hd
    obtain ⟨more, hmore⟩ := hds
    have hdesc' : r'.descriptors[b.descId]? = some desc := by
      rw [← hmore, List.getElem?_append_left (List.getElem?_eq_some_iff.mp hdesc).1, hdesc]
    rw [hobject]
    simp only [DescriptorFields.subobject, fields, hdesc, hdesc']

theorem linkedAt_of_select (hs : KinState H s) {scope : Option ScopeId} {typeId : TypeId}
    {nameId : NameId} {d : DescriptorId} (h : s.context.select scope typeId nameId = .ok d) :
    s.core.started = true ∧ s.core.LinkedAt d := by
  unfold BeanContext.select at h
  split_ifs at h with hstarted
  have hs' : s.core.started = true := by simpa using hstarted
  exact ⟨hs', hs.kin.linkedAt hs' h⟩

/-- Every handle points at the subobject of its descriptor, or is a proxy. -/
theorem Held.points (h : Held H L s b) :
    KinState H s ∧ s.core.beanContextDescId ≠ none ∧ Points L s.core b := by
  -- Along the derivation. Handles come from a selection, an event or a cast; a later step of the
  -- registry only adds descriptors behind those that there are.
  induction h with
  | resolved hs hselect =>
    have hkin := Startup.kin_reachable hs
    obtain ⟨hstarted, hlinked⟩ := linkedAt_of_select hkin hselect
    exact ⟨hkin, hkin.kin.begun hstarted, .inr ⟨hlinked, _, rfl⟩⟩
  | @announced _ _ _ mem _ hs hstarted hdesc halias =>
    have hkin := Startup.kin_reachable hs
    refine ⟨hkin, hkin.kin.begun hstarted, .inr ⟨⟨_, hdesc, fun horphan => ?_⟩, mem, ?_⟩⟩
    · rw [horphan.1] at halias
      cases halias
    · refine congrArg some (subobject_of_not_alias ?_).symm
      simp only [Bean.makeDirect, hdesc, Option.any_some, halias]
  | proxy hs hstarted =>
    have hkin := Startup.kin_reachable hs
    exact ⟨hkin, hkin.kin.begun hstarted, .inl rfl⟩
  | threadLocal hs hstarted =>
    have hkin := Startup.kin_reachable hs
    exact ⟨hkin, hkin.kin.begun hstarted, .inl rfl⟩
  | cast _ hcast ih =>
    obtain ⟨hkin, hid, hpoints⟩ := ih
    exact ⟨hkin, hid, hpoints.cast hkin.kin.families hkin.kin.interned.indexed
      (hkin.kin.merged hid).2.2 hcast⟩
  | later _ hG hstep ih =>
    obtain ⟨hkin, hid, hpoints⟩ := ih
    obtain ⟨hds, hid'⟩ := Startup.step_descriptors hid hstep
    exact ⟨hkin.step hG hstep, hid', hpoints.of_prefix hds⟩

/-- In every run whose discoveries before the merge tell aliases and primaries apart, the casts of
    every handle follow the laws. -/
theorem cast_laws (H : IdentityHashes) (L : BaseLayout) (s : Startup.State) (b : Bean)
    (h : Held H L s b) : CastLaws (fields L s.core) b := by
  obtain ⟨hkin, hid, hpoints⟩ := h.points
  exact hpoints.castLaws hkin.kin.families hkin.kin.interned.indexed (hkin.kin.merged hid).2.2

end Held

/-! ## Examples -/

/-- A prototype with a base, which lies 8 bytes into the object. -/
def inks : List DiscoveredEntity :=
  [.annotatedType ⟨"Ink", 1⟩ [⟨"Color", 2⟩]
    { lifetime := .prototype, priority := 5, hasLifetimeMarker := true } {}]

def offset : BaseLayout where
  adjustToExposed _ p := p + 8
  adjustToConcrete _ := some (· - 8)
  inverse _ g hg p := by
    obtain rfl := Option.some.inj hg
    exact Nat.add_sub_cancel p 8

/-- The discovery and the start, with the two events of the context bean. -/
def startWith (entities : List DiscoveredEntity) : List Startup.Action :=
  [.call (.discover (makeAllDescriptors lengths entities)), .start, .returns, .returns]

theorem reachable_startWith {entities : List DiscoveredEntity} {s : Startup.State}
    (hapart : Registry.Apart (makeAllDescriptors lengths entities))
    (hrun : machine.run Startup.initial (startWith entities) = some s) :
    machine.ReachableBy (TellsApart lengths) s := by
  refine Startup.reachable_of_discover hapart (fun a ha cds => ?_) hrun
  simp only [List.mem_cons, List.not_mem_nil, or_false] at ha
  rcases ha with rfl | rfl | rfl <;> exact Startup.Action.noConfusion

/-- The handle of the base of a prototype is cast to the prototype, and back. -/
theorem cast_laws_base : ∃ s b c, Held lengths offset s b ∧
    (cast (fields offset s.core) (fun _ => 1) b (some 0)).1 = .ok c ∧ c ≠ b ∧
      CastLaws (fields offset s.core) b := by
  obtain ⟨s, hrun, hselect, hcast⟩ : ∃ s, machine.run Startup.initial (startWith inks) = some s ∧
      s.context.select none 1 kUnnamed = .ok 1 ∧
      (cast (fields offset s.core) (fun _ => 1)
        (.makeDirect ((fields offset s.core).subobject 1 1000) 0 1 0) (some 0)).1 =
          .ok (.makeDirect 1000 0 0 0) :=
    ⟨_, rfl, rfl, rfl⟩
  have h : Held lengths offset s (.makeDirect ((fields offset s.core).subobject 1 1000) 0 1 0) :=
    .resolved (reachable_startWith (by decide) hrun) hselect
  refine ⟨s, _, _, h, hcast, fun heq => ?_, cast_laws lengths offset s _ h⟩
  cases congrArg Bean.descId heq

/-- Another type of the same qualified name, which derives from the first one. Its own primary is
    merged with that of the first type, and its alias becomes a second descriptor that exposes the
    concrete type. -/
def twoInks : List DiscoveredEntity :=
  inks ++ [.annotatedType ⟨"Ink", 3⟩ [⟨"Ink", 1⟩]
    { lifetime := .prototype, priority := 7, hasLifetimeMarker := true } {}]

/-- The handle of the second type is cast to the base of the first one, and back to its own
    type: this gives another handle. -/
theorem cast_back_differs : ∃ s, machine.run Startup.initial (startWith twoInks) = some s ∧
    s.core.started = true ∧ s.context.select none 0 kUnnamed = .ok 2 ∧
    (fields offset s.core).exposedType 2 = 0 ∧
      ¬CastLaws (fields offset s.core)
        (.makeDirect ((fields offset s.core).subobject 2 1000) 0 2 0) := by
  obtain ⟨s, hrun, hstarted, hselect, htype, hthere, hback⟩ : ∃ s,
      machine.run Startup.initial (startWith twoInks) = some s ∧ s.core.started = true ∧
      s.context.select none 0 kUnnamed = .ok 2 ∧ (fields offset s.core).exposedType 2 = 0 ∧
      (cast (fields offset s.core) (fun _ => 1)
        (.makeDirect ((fields offset s.core).subobject 2 1000) 0 2 0) (some 1)).1 =
          .ok (.makeDirect 1008 0 1 0) ∧
      (cast (fields offset s.core) (fun _ => 1) (.makeDirect 1008 0 1 0)
        (some ((fields offset s.core).exposedType 2))).1 = .ok (.makeDirect 1000 0 0 0) :=
    ⟨_, rfl, rfl, rfl, rfl, rfl, rfl⟩
  refine ⟨s, hrun, hstarted, hselect, htype, fun h => ?_⟩
  have hsame := h.back _ _ _ _ _ hthere hback
  cases congrArg Bean.descId hsame

end Ctorium.Casts
