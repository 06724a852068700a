import Ctorium.Lib.Assoc
import Ctorium.Lib.Machine
import Ctorium.TypeIndex

/-!
# The creation of scopes

`BeanContext::resolveScope` looks for the scope of a key in `scopes_`, the map of its context. If
there is none it puts a new one into the map, interns the key, and registers the scope under the
identifier of the key in the scope table of the registry, through which proxies and scoped
injection find it. `ScopedContext::resolveScope` hands the call to the context that the scope was
created by, its *root*; but it hides the other function rather than overriding it, so that a scope
that is known as a `BeanContext` (as `Bean::context` gives it) creates scopes of its own.

The table is segmented, and registering fails for an identifier behind its last segment. The
names of beans, bindings and defaults take identifiers from the same interning table. Wherever
memory is allocated, the allocation may fail.

* `Consistent`: the scopes of the root are found under the identifiers of their keys.
* `scopes_atomic_iff`: in a run the scopes of the root are found after every step, and every call
  that throws changes nothing and throws again, exactly if every call that puts a scope into a map
  goes through, and takes no identifier from a scope of the root.
* `Inv.completes_iff`: as long as no interning has failed, only a call on another context than the
  root, for the key of one of the root's scopes, takes such an identifier.
-/

namespace Ctorium.Scopes

open Function

def kScopeChunkSize : ℕ := 256
def kScopeTopCapacity : ℕ := 256

/-! ## Names -/

/-- `NameInterning`: the map from names to identifiers, and the number of entries of
    `idToName_`, whose first one is the empty name. -/
structure NameTable where
  nameToId : List (String × NameId) := []
  size : ℕ := 1
  deriving DecidableEq, Repr

/-- Which allocation fails while a new name is interned: that of the map entry, or that of the
    entry of `idToName_`. -/
inductive NameFault
  | entry
  | slot
  deriving DecidableEq, Repr

namespace NameTable

def lookup (t : NameTable) (name : String) : Option NameId :=
  if name = "" then some kUnnamed else t.nameToId.lookup name

/-- The identifier that a name has or is about to get. -/
def idFor (t : NameTable) (name : String) : NameId := (t.lookup name).getD (t.size % 2 ^ 32)

/-- `NameInterning::intern`. It has no result if an allocation fails. -/
def intern (t : NameTable) (name : String) (fault : Option NameFault) :
    Option NameId × NameTable :=
  match t.lookup name with
  | some id => (some id, t)
  | none =>
    let id := t.size % 2 ^ 32
    match fault with
    | some .entry => (none, t)
    | some .slot => (none, { t with nameToId := t.nameToId ++ [(name, id)] })
    | none => (some id, { nameToId := t.nameToId ++ [(name, id)], size := t.size + 1 })

end NameTable

/-! ## Scopes -/

/-- A context: the root context of the registry, or a scope. -/
inductive Owner
  | root
  | scope (id : ScopeId)
  deriving DecidableEq, Repr

/-- Which allocation fails during `resolveScope`: that of the new scope or its map entry, one
    of the interning, or that of a segment of the scope table. -/
inductive Fault
  | candidate
  | name (fault : NameFault)
  | chunk
  deriving DecidableEq, Repr

def Fault.nameFault : Option Fault → Option NameFault
  | some (.name fault) => some fault
  | _ => none

inductive Outcome
  | returned (scope : ScopeId)
  | raised (failure : Failure)
  | badAlloc
  deriving DecidableEq, Repr

/-- The call has thrown. -/
def Outcome.Throws : Outcome → Prop
  | .returned _ => False
  | .raised _ | .badAlloc => True

instance : (o : Outcome) → Decidable o.Throws
  | .returned _ => .isFalse id
  | .raised _ | .badAlloc => .isTrue trivial

/-- A registry with its contexts. -/
structure State where
  names : NameTable := {}
  /-- The segments of the scope table, by their index and by the offsets in them. -/
  scopeChunks : ℕ → Option (ℕ → Option ScopeId) := fun _ => none
  /-- `scopes_` of every context. -/
  scopes : Owner → List (String × ScopeId) := fun _ => []
  /-- `scopeNameId_` of every scope. -/
  scopeNameId : ScopeId → NameId := fun _ => 2 ^ 32 - 1
  /-- `root_` of every scope. -/
  root : ScopeId → Owner := fun _ => .root
  nextScope : ScopeId := 0

namespace State

/-- `Registry::findScope`. -/
def findScope (s : State) (id : NameId) : Option ScopeId :=
  if id / kScopeChunkSize ≥ kScopeTopCapacity then none
  else (s.scopeChunks (id / kScopeChunkSize)).bind fun chunk => chunk (id % kScopeChunkSize)

/-- A scope is stored in a segment of the table. -/
def setSlot (s : State) (id : NameId) (chunk : ℕ → Option ScopeId) (scope : ScopeId) : State :=
  { s with
    scopeChunks := update s.scopeChunks (id / kScopeChunkSize)
      (some (update chunk (id % kScopeChunkSize) (some scope))) }

/-- `Registry::registerScope`; `fails` tells whether the allocation of a segment would fail. -/
def registerScope (s : State) (id : NameId) (scope : ScopeId) (fails : Bool) : Outcome × State :=
  if id / kScopeChunkSize ≥ kScopeTopCapacity then
    (.raised (.configurationError ("Registry::registerScope: scope NameId exceeds segmented " ++
      "scope table capacity.")), s)
  else match s.scopeChunks (id / kScopeChunkSize) with
    | some chunk => (.returned scope, s.setSlot id chunk scope)
    | none =>
      if fails then (.badAlloc, s) else (.returned scope, s.setSlot id (fun _ => none) scope)

/-- A new scope is put into the map of a context. -/
def emplace (s : State) (owner : Owner) (key : String) : State :=
  { s with
    scopes := update s.scopes owner (s.scopes owner ++ [(key, s.nextScope)])
    root := update s.root s.nextScope owner
    nextScope := s.nextScope + 1 }

/-- `BeanContext::resolveScope`. -/
def resolveScope (s : State) (owner : Owner) (key : String) (fault : Option Fault) :
    Outcome × State :=
  match (s.scopes owner).lookup key with
  | some scope => (.returned scope, s)
  | none =>
    if fault = some .candidate then (.badAlloc, s)
    else
      let scope := s.nextScope
      let s := s.emplace owner key
      match s.names.intern key (Fault.nameFault fault) with
      | (none, names) => (.badAlloc, { s with names := names })
      | (some id, names) =>
        { s with names := names, scopeNameId := update s.scopeNameId scope id }.registerScope id
          scope (fault = some Fault.chunk)

/-- The context is there. -/
def Exists (s : State) : Owner → Prop
  | .root => True
  | .scope id => id < s.nextScope

instance (s : State) : (owner : Owner) → Decidable (s.Exists owner)
  | .root => .isTrue trivial
  | .scope _ => inferInstanceAs (Decidable (_ < _))

end State

/-- The calls that create scopes or intern names. -/
inductive Action
  /-- `BeanContext::resolveScope`. -/
  | resolveScope (owner : Owner) (key : String) (fault : Option Fault)
  /-- `ScopedContext::resolveScope`. -/
  | scopedResolveScope (scope : ScopeId) (key : String) (fault : Option Fault)
  /-- A bean name, the name of a binding or a default, or a name in an injection point. -/
  | intern (name : String) (fault : Option NameFault)
  deriving DecidableEq, Repr

namespace State

/-- The call of `BeanContext::resolveScope` that an action comes to. -/
def request (s : State) : Action → Option (Owner × String × Option Fault)
  | .resolveScope owner key fault => some (owner, key, fault)
  | .scopedResolveScope scope key fault => some (s.root scope, key, fault)
  | .intern _ _ => none

end State

def step (s : State) : Action → Option State
  | .resolveScope owner key fault =>
    if s.Exists owner then some (s.resolveScope owner key fault).2 else none
  | .scopedResolveScope scope key fault =>
    if s.Exists (.scope scope) then some (s.resolveScope (s.root scope) key fault).2 else none
  | .intern name fault => some { s with names := (s.names.intern name fault).2 }

/-- The runs from an empty registry. -/
def machine : Machine State Action where
  Init s := s = {}
  step := step

/-! ## What is claimed of a step -/

namespace State

/-- Every scope of the root has the identifier of its key, and is found under it. -/
def Consistent (s : State) : Prop :=
  ∀ e ∈ s.scopes .root, s.names.lookup e.1 = some (s.scopeNameId e.2) ∧
    s.findScope (s.scopeNameId e.2) = some e.2

/-- A call that throws leaves the maps and the scope table as they are, and throws again when it
    is repeated. -/
def Atomic (s : State) (owner : Owner) (key : String) (fault : Option Fault) : Prop :=
  (s.resolveScope owner key fault).1.Throws →
    (s.resolveScope owner key fault).2.scopes = s.scopes ∧
    (s.resolveScope owner key fault).2.scopeChunks = s.scopeChunks ∧
    ((s.resolveScope owner key fault).2.resolveScope owner key fault).1.Throws

/-- The key can be interned, and its scope be registered: the identifier is inside the table, and
    no allocation fails. -/
def GoesThrough (s : State) (key : String) (fault : Option Fault) : Prop :=
  ((s.names.lookup key).isSome ∨ Fault.nameFault fault = none) ∧
    s.names.idFor key / kScopeChunkSize < kScopeTopCapacity ∧
    ((s.scopeChunks (s.names.idFor key / kScopeChunkSize)).isSome ∨
      decide (fault = some .chunk) = false)

/-- The call finds the scope, or fails before it has changed anything, or goes through and takes
    the identifier of no scope of the root. -/
def Completes (s : State) (owner : Owner) (key : String) (fault : Option Fault) : Prop :=
  ((s.scopes owner).lookup key).isSome ∨ fault = some .candidate ∨
    s.GoesThrough key fault ∧ ∀ e ∈ s.scopes .root, s.scopeNameId e.2 ≠ s.names.idFor key

instance (s : State) (key : String) (fault : Option Fault) :
    Decidable (s.GoesThrough key fault) := inferInstanceAs (Decidable (_ ∧ _ ∧ _))

instance (s : State) (owner : Owner) (key : String) (fault : Option Fault) :
    Decidable (s.Completes owner key fault) := inferInstanceAs (Decidable (_ ∨ _ ∨ _))

end State

/-- The scopes of the root are found after the step, and a call of `resolveScope` is atomic. -/
def Keeps (s : State) (a : Action) (s' : State) : Prop :=
  s'.Consistent ∧
    ∀ owner key fault, s.request a = some (owner, key, fault) → s.Atomic owner key fault

/-- The condition: a call of `resolveScope` that puts a scope into a map goes through. -/
def Condition (s : State) (a : Action) : Prop :=
  ∀ owner key fault, s.request a = some (owner, key, fault) → s.Completes owner key fault

/-! ## Interning -/

namespace NameTable

variable {t : NameTable} {name other : String} {id : NameId}

/-- A new entry of the map is found, and hides no other one. -/
theorem lookup_append (hname : t.lookup name = none) (id : NameId) (n : ℕ) :
    ({ nameToId := t.nameToId ++ [(name, id)], size := n } : NameTable).lookup name = some id ∧
      ∀ other i, t.lookup other = some i →
        ({ nameToId := t.nameToId ++ [(name, id)], size := n } : NameTable).lookup other =
          some i := by
  rw [lookup] at hname
  split_ifs at hname with hempty
  refine ⟨?_, fun other i hi => ?_⟩
  · rw [lookup, if_neg hempty, List.lookup_append, hname]
    simp
  · rw [lookup] at hi ⊢
    split_ifs at hi ⊢
    · exact hi
    · rw [List.lookup_append, hi, Option.some_or]

/-- Interning gives the identifier of the name, or runs out of memory with a new name; names keep
    their identifiers. -/
theorem intern_cases (t : NameTable) (name : String) (fault : Option NameFault) :
    (((t.lookup name).isSome ∨ fault = none) ∧
        (t.intern name fault).1 = some (t.idFor name) ∧
        (t.intern name fault).2.lookup name = some (t.idFor name) ∨
      ¬ ((t.lookup name).isSome ∨ fault = none) ∧ (t.intern name fault).1 = none) ∧
    ∀ other i, t.lookup other = some i → (t.intern name fault).2.lookup other = some i := by
  rw [intern, idFor]
  cases hname : t.lookup name with
  | some id => exact ⟨.inl ⟨.inl rfl, rfl, hname⟩, fun _ _ hi => hi⟩
  | none =>
    have happend := lookup_append hname (t.size % 2 ^ 32)
    cases fault with
    | none => exact ⟨.inl ⟨.inr rfl, rfl, (happend _).1⟩, (happend _).2⟩
    | some fault =>
      have hnot : ¬ ((none : Option NameId).isSome = true ∨ some fault = none) := by simp
      cases fault with
      | entry => exact ⟨.inr ⟨hnot, rfl⟩, fun _ _ hi => hi⟩
      | slot => exact ⟨.inr ⟨hnot, rfl⟩, (happend _).2⟩

/-- Different names have different identifiers. -/
structure Distinct (t : NameTable) : Prop where
  injective : ∀ name other id, t.lookup name = some id → t.lookup other = some id → name = other
  bound : ∀ name id, t.lookup name = some id → id < t.size
  size : 0 < t.size

theorem Distinct.initial : Distinct {} where
  injective name other id h₁ h₂ := by
    rw [lookup] at h₁ h₂
    split_ifs at h₁ h₂ with e₁ e₂
    · rw [e₁, e₂]
    all_goals simp at h₁ h₂
  bound name id h := by
    rw [lookup] at h
    split_ifs at h
    · obtain rfl := Option.some.inj h
      exact Nat.zero_lt_one
    · cases h
  size := Nat.zero_lt_one

/-- As long as identifiers do not wrap around and memory lasts, a new name gets one of its own. -/
theorem Distinct.intern (h : t.Distinct) (hsize : t.size < 2 ^ 32) (name : String) :
    (t.intern name none).2.Distinct := by
  rw [NameTable.intern]
  cases hname : t.lookup name with
  | some id => exact h
  | none =>
    simp only [Nat.mod_eq_of_lt hsize]
    obtain ⟨hself, hkept⟩ := lookup_append hname t.size (t.size + 1)
    -- The new table finds what the old one found, and the new name.
    have hcases : ∀ other i,
        ({ nameToId := t.nameToId ++ [(name, t.size)], size := t.size + 1 } : NameTable).lookup
          other = some i → t.lookup other = some i ∨ other = name ∧ i = t.size := by
      intro other i hi
      by_cases hother : other = name
      · subst hother
        exact .inr ⟨rfl, Option.some.inj (hi.symm.trans hself)⟩
      · left
        rw [lookup] at hi ⊢
        split_ifs at hi ⊢
        · exact hi
        · rw [List.lookup_append, List.lookup_cons, beq_eq_false_iff_ne.mpr hother] at hi
          simpa using hi
    refine ⟨fun n₁ n₂ id h₁ h₂ => ?_, fun n₁ id h₁ => ?_, Nat.succ_pos _⟩
    · rcases hcases _ _ h₁ with h₁ | ⟨rfl, rfl⟩ <;> rcases hcases _ _ h₂ with h₂ | ⟨h₂, hid⟩
      · exact h.injective _ _ _ h₁ h₂
      · exact absurd (h.bound _ _ h₁) (hid ▸ Nat.lt_irrefl _)
      · exact absurd (h.bound _ _ h₂) (Nat.lt_irrefl _)
      · exact h₂.symm
    · rcases hcases _ _ h₁ with h₁ | ⟨-, rfl⟩
      · exact Nat.lt_succ_of_lt (h.bound _ _ h₁)
      · exact Nat.lt_succ_self _

/-- A name that has the identifier of another one, or is about to get it, is that name. -/
theorem Distinct.eq_of_idFor (h : t.Distinct) (hsize : t.size < 2 ^ 32)
    (hother : t.lookup other = some (t.idFor name)) : other = name := by
  rw [idFor] at hother
  cases hname : t.lookup name with
  | some id =>
    rw [hname, Option.getD_some] at hother
    exact h.injective _ _ _ hother hname
  | none =>
    rw [hname, Option.getD_none, Nat.mod_eq_of_lt hsize] at hother
    exact absurd (h.bound _ _ hother) (Nat.lt_irrefl _)

end NameTable

/-! ## The scope table -/

section Table

variable {s s' : State} {id j : NameId} {scope : ScopeId} {owner : Owner} {key : String}
  {fault : Option Fault}

theorem eq_of_chunk_eq (hdiv : j / kScopeChunkSize = id / kScopeChunkSize)
    (hmod : j % kScopeChunkSize = id % kScopeChunkSize) : j = id := by
  rw [← Nat.div_add_mod j kScopeChunkSize, hdiv, hmod, Nat.div_add_mod]

/-- A scope is found where it is stored; the other entries stay, in a segment that was there as
    in a new one. -/
theorem findScope_setSlot {chunk : ℕ → Option ScopeId}
    (hid : id / kScopeChunkSize < kScopeTopCapacity)
    (hchunk : (s.scopeChunks (id / kScopeChunkSize)).getD (fun _ => none) = chunk) (j : NameId) :
    (s.setSlot id chunk scope).findScope j = if j = id then some scope else s.findScope j := by
  have hchunks : (s.setSlot id chunk scope).scopeChunks = update s.scopeChunks
      (id / kScopeChunkSize) (some (update chunk (id % kScopeChunkSize) (some scope))) := rfl
  rw [State.findScope, hchunks, update_apply, State.findScope]
  by_cases hdiv : j / kScopeChunkSize = id / kScopeChunkSize
  · rw [if_pos hdiv, Option.bind_some, update_apply, hdiv,
      if_neg (Nat.not_le_of_lt hid), if_neg (Nat.not_le_of_lt hid)]
    by_cases hj : j = id
    · rw [if_pos (by rw [hj]), if_pos hj]
    · have hmod : j % kScopeChunkSize ≠ id % kScopeChunkSize := fun hmod =>
        hj (eq_of_chunk_eq hdiv hmod)
      rw [if_neg hmod, if_neg hj, ← hchunk]
      cases s.scopeChunks (id / kScopeChunkSize) <;> rfl
  · have hj : j ≠ id := fun hj => hdiv (by rw [hj])
    rw [if_neg hdiv, if_neg hj]

/-- Registering a scope stores it under its identifier, or throws and changes nothing. -/
theorem registerScope_cases (s : State) (id : NameId) (scope : ScopeId) (fails : Bool) :
    ((id / kScopeChunkSize < kScopeTopCapacity ∧
        ((s.scopeChunks (id / kScopeChunkSize)).isSome ∨ fails = false)) ∧
      ∃ chunk, s.registerScope id scope fails = (.returned scope, s.setSlot id chunk scope) ∧
        ∀ j, (s.setSlot id chunk scope).findScope j =
          if j = id then some scope else s.findScope j) ∨
    (¬ (id / kScopeChunkSize < kScopeTopCapacity ∧
        ((s.scopeChunks (id / kScopeChunkSize)).isSome ∨ fails = false)) ∧
      (s.registerScope id scope fails).1.Throws ∧ (s.registerScope id scope fails).2 = s) := by
  rw [State.registerScope]
  by_cases hid : id / kScopeChunkSize < kScopeTopCapacity
  · rw [if_neg (Nat.not_le_of_lt hid)]
    cases hchunk : s.scopeChunks (id / kScopeChunkSize) with
    | some chunk =>
      refine .inl ⟨⟨hid, .inl rfl⟩, chunk, rfl, fun j => findScope_setSlot hid ?_ j⟩
      rw [hchunk, Option.getD_some]
    | none =>
      cases fails with
      | true => exact .inr ⟨by simp, trivial, rfl⟩
      | false =>
        refine .inl ⟨⟨hid, .inr rfl⟩, _, rfl, fun j => findScope_setSlot hid ?_ j⟩
        rw [hchunk, Option.getD_none]
  · rw [if_pos (Nat.le_of_not_lt hid)]
    exact .inr ⟨fun h => hid h.1, trivial, rfl⟩

end Table

/-! ## The calls -/

section Calls

variable {s s' : State} {owner : Owner} {key : String} {fault : Option Fault} {a : Action}

/-- What a call of `resolveScope` without a scope of the key changes when it goes through. -/
structure Created (s : State) (owner : Owner) (key : String) (s' : State) : Prop where
  scopes : s'.scopes = update s.scopes owner (s.scopes owner ++ [(key, s.nextScope)])
  nextScope : s'.nextScope = s.nextScope + 1
  scopeNameId : s'.scopeNameId = update s.scopeNameId s.nextScope (s.names.idFor key)
  lookup_self : s'.names.lookup key = some (s.names.idFor key)
  lookup : ∀ name id, s.names.lookup name = some id → s'.names.lookup name = some id
  findScope : ∀ id, s'.findScope id =
    if id = s.names.idFor key then some s.nextScope else s.findScope id

/-- The cases of a call: it finds the scope, or fails before it changes anything, or goes through,
    or throws with the new scope in the map. -/
theorem resolveScope_cases (s : State) (owner : Owner) (key : String) (fault : Option Fault) :
    (∃ scope, (s.scopes owner).lookup key = some scope ∧
      s.resolveScope owner key fault = (.returned scope, s)) ∨
    (s.scopes owner).lookup key = none ∧
      (fault = some .candidate ∧ s.resolveScope owner key fault = (.badAlloc, s) ∨
        fault ≠ some .candidate ∧
          (s.GoesThrough key fault ∧ (s.resolveScope owner key fault).1 = .returned s.nextScope ∧
            Created s owner key (s.resolveScope owner key fault).2 ∨
          ¬ s.GoesThrough key fault ∧ (s.resolveScope owner key fault).1.Throws ∧
            (s.resolveScope owner key fault).2.scopes owner =
              s.scopes owner ++ [(key, s.nextScope)])) := by
  rw [State.resolveScope]
  cases hkey : (s.scopes owner).lookup key with
  | some scope => exact .inl ⟨scope, rfl, rfl⟩
  | none =>
    refine .inr ⟨rfl, ?_⟩
    by_cases hfault : fault = some .candidate
    · exact .inl ⟨hfault, if_pos hfault⟩
    refine .inr ⟨hfault, ?_⟩
    simp only [if_neg hfault]
    obtain ⟨hcases, hkept⟩ := s.names.intern_cases key (Fault.nameFault fault)
    have hnames : (s.emplace owner key).names = s.names := rfl
    rw [hnames]
    cases hintern : s.names.intern key (Fault.nameFault fault) with
    | mk id names =>
      rw [hintern] at hcases hkept
      rcases hcases with ⟨hgood, rfl, hself⟩ | ⟨hbad, rfl⟩
      · -- The name is interned; the scope is registered, or not.
        obtain ⟨s₁, hs₁⟩ : ∃ s₁ : State, s₁ = { s.emplace owner key with
          names := names
          scopeNameId := update (s.emplace owner key).scopeNameId s.nextScope
            (s.names.idFor key) } := ⟨_, rfl⟩
        have hchunks : s₁.scopeChunks = s.scopeChunks := (congrArg State.scopeChunks hs₁ :)
        have hregister := registerScope_cases s₁ (s.names.idFor key) s.nextScope
          (decide (fault = some Fault.chunk))
        rw [hchunks] at hregister
        simp only
        rw [← hs₁]
        rcases hregister with ⟨hgo, chunk, heq, hfind⟩ | ⟨hno, hthrows, heq⟩
        · rw [heq]
          refine .inl ⟨⟨hgood, hgo⟩, rfl, ?_, ?_, ?_, ?_, ?_, ?_⟩
          · exact congrArg State.scopes hs₁
          · exact congrArg State.nextScope hs₁
          · exact congrArg State.scopeNameId hs₁
          · exact (congrArg (NameTable.lookup · key) (congrArg State.names hs₁) :).trans hself
          · intro name id hid
            exact (congrArg (NameTable.lookup · name) (congrArg State.names hs₁) :).trans
              (hkept name id hid)
          · intro id
            rw [hfind, hs₁]
            rfl
        · refine .inr ⟨fun hgo => hno hgo.2, hthrows, ?_⟩
          rw [heq, hs₁]
          exact update_self ..
      · exact .inr ⟨fun hgo => hbad hgo.1, trivial, update_self ..⟩

/-! ## The invariant -/

/-- The scopes of the root are found, and no context has a scope that is not there yet. -/
structure Inv (s : State) : Prop where
  consistent : s.Consistent
  created : ∀ owner, ∀ e ∈ s.scopes owner, e.2 < s.nextScope

theorem Inv.initial : Inv {} where
  consistent := fun _ he => nomatch he
  created := fun _ _ he => nomatch he

/-- The maps have the new scope of one context besides the old ones. -/
theorem Created.mem (h : Created s owner key s') {o : Owner} {e : String × ScopeId} :
    e ∈ s'.scopes o ↔ e ∈ s.scopes o ∨ o = owner ∧ e = (key, s.nextScope) := by
  rw [h.scopes, update_apply]
  split_ifs with ho
  · rw [List.mem_append, List.mem_singleton, ho]
    simp
  · simp [ho]

theorem Created.fresh (h : Created s owner key s')
    (hold : ∀ owner, ∀ e ∈ s.scopes owner, e.2 < s.nextScope) :
    ∀ o, ∀ e ∈ s'.scopes o, e.2 < s'.nextScope := by
  intro o e he
  rw [h.nextScope]
  rcases h.mem.mp he with he | ⟨-, rfl⟩
  · exact Nat.lt_succ_of_lt (hold o e he)
  · exact Nat.lt_succ_self _

/-- The scopes of the root are found after a scope was created exactly if the new one takes the
    identifier of none of them. -/
theorem Created.consistent_iff (h : Created s owner key s') (hs : Inv s) :
    s'.Consistent ↔ ∀ e ∈ s.scopes .root, s.scopeNameId e.2 ≠ s.names.idFor key := by
  have hid : ∀ e ∈ s.scopes .root, s'.scopeNameId e.2 = s.scopeNameId e.2 := fun e he => by
    rw [h.scopeNameId, update_of_ne (hs.created .root e he).ne]
  constructor
  · intro hcons e he heq
    have hfind := (hcons e (h.mem.mpr (.inl he))).2
    rw [hid e he, h.findScope, if_pos heq] at hfind
    exact (hs.created .root e he).ne (Option.some.inj hfind).symm
  · intro hne e he
    rcases h.mem.mp he with he | ⟨-, rfl⟩
    · obtain ⟨hlookup, hfind⟩ := hs.consistent e he
      rw [hid e he, h.findScope, if_neg (hne e he)]
      exact ⟨h.lookup _ _ hlookup, hfind⟩
    · have hnew : s'.scopeNameId s.nextScope = s.names.idFor key := by
        rw [h.scopeNameId, update_self]
      rw [hnew, h.findScope, if_pos rfl]
      exact ⟨h.lookup_self, rfl⟩

/-- The scopes of the root are found after a call, and the call is atomic, exactly if it
    completes. -/
theorem Inv.resolveScope_iff (h : Inv s) :
    ((s.resolveScope owner key fault).2.Consistent ∧ s.Atomic owner key fault) ↔
      s.Completes owner key fault := by
  rcases resolveScope_cases s owner key fault with
    ⟨scope, hkey, heq⟩ | ⟨hkey, ⟨hfault, heq⟩ | ⟨hfault, ⟨hgo, hout, hnew⟩ | ⟨hno, hthrows, hmap⟩⟩⟩
  · refine ⟨fun _ => .inl (by rw [hkey]; rfl), fun _ => ⟨heq ▸ h.consistent, fun hthrows => ?_⟩⟩
    rw [heq] at hthrows
    cases hthrows
  · refine ⟨fun _ => .inr (.inl hfault), fun _ => ⟨heq ▸ h.consistent, fun _ => ?_⟩⟩
    rw [heq]
    exact ⟨rfl, rfl, by rw [heq]; trivial⟩
  · rw [hnew.consistent_iff h]
    constructor
    · exact fun hc => .inr (.inr ⟨hgo, hc.1⟩)
    · intro hc
      refine ⟨?_, fun hthrows => ?_⟩
      · rcases hc with hc | hc | hc
        · rw [hkey] at hc
          cases hc
        · exact absurd hc hfault
        · exact hc.2
      · rw [hout] at hthrows
        cases hthrows
  · constructor
    · -- The call has thrown after the scope was put into the map.
      intro hc
      have hsame := congrFun (hc.2 hthrows).1 owner
      rw [hmap] at hsame
      simp at hsame
    · rintro (hc | hc | hc)
      · rw [hkey] at hc
        cases hc
      · exact absurd hc hfault
      · exact absurd hc.1 hno

theorem Inv.resolveScope (h : Inv s) (hc : s.Completes owner key fault) :
    Inv (s.resolveScope owner key fault).2 where
  consistent := (h.resolveScope_iff.mpr hc).1
  created := by
    rcases resolveScope_cases s owner key fault with
      ⟨scope, hkey, heq⟩ | ⟨hkey, ⟨hfault, heq⟩ | ⟨hfault, ⟨hgo, hout, hnew⟩ | ⟨hno, -⟩⟩⟩
    · rw [heq]
      exact h.created
    · rw [heq]
      exact h.created
    · exact hnew.fresh h.created
    · rcases hc with hc | hc | hc
      · rw [hkey] at hc
        cases hc
      · exact absurd hc hfault
      · exact absurd hc.1 hno

/-- Where different names have different identifiers, a new scope takes the identifier of a scope
    of the root only if the root has a scope of the same key, so never if it is the root's. -/
theorem Inv.completes_iff (h : Inv s) (hnames : s.names.Distinct)
    (hsize : s.names.size < 2 ^ 32) :
    s.Completes owner key fault ↔
      ((s.scopes owner).lookup key).isSome ∨ fault = some .candidate ∨
        s.GoesThrough key fault ∧ key ∉ (s.scopes .root).map Prod.fst := by
  have hkey : (∀ e ∈ s.scopes .root, s.scopeNameId e.2 ≠ s.names.idFor key) ↔
      key ∉ (s.scopes .root).map Prod.fst := by
    constructor
    · intro hne hmem
      obtain ⟨e, he, rfl⟩ := List.mem_map.mp hmem
      refine hne e he ?_
      rw [NameTable.idFor, (h.consistent e he).1, Option.getD_some]
    · intro hmem e he heq
      refine hmem (List.mem_map.mpr ⟨e, he, ?_⟩)
      exact hnames.eq_of_idFor hsize (heq ▸ (h.consistent e he).1)
  rw [State.Completes, hkey]

/-- Interning another name changes no scope. -/
theorem Inv.intern (h : Inv s) (name : String) (fault : Option NameFault) :
    Inv { s with names := (s.names.intern name fault).2 } where
  consistent := fun e he =>
    ⟨(s.names.intern_cases name fault).2 _ _ (h.consistent e he).1, (h.consistent e he).2⟩
  created := h.created

/-- The step lemma: a step keeps the scopes of the root and is atomic exactly if it meets the
    condition. -/
theorem Inv.step_iff (h : Inv s) (hs : step s a = some s') : Keeps s a s' ↔ Condition s a := by
  have hcall : ∀ {owner key fault}, s.request a = some (owner, key, fault) →
      s' = (s.resolveScope owner key fault).2 → (Keeps s a s' ↔ Condition s a) := by
    rintro owner key fault hrequest rfl
    rw [Keeps, Condition]
    constructor
    · intro hk o k f ho
      have hcompletes : s.Completes owner key fault :=
        h.resolveScope_iff.mp ⟨hk.1, hk.2 _ _ _ hrequest⟩
      obtain ⟨⟩ := Option.some.inj (hrequest.symm.trans ho)
      exact hcompletes
    · intro hc
      have hboth := h.resolveScope_iff.mpr (hc _ _ _ hrequest)
      refine ⟨hboth.1, fun o k f ho => ?_⟩
      obtain ⟨⟩ := Option.some.inj (hrequest.symm.trans ho)
      exact hboth.2
  cases a with
  | resolveScope owner key fault =>
    obtain ⟨-, ⟨⟩⟩ := Option.ite_none_right_eq_some.mp hs
    exact hcall rfl rfl
  | scopedResolveScope scope key fault =>
    obtain ⟨-, ⟨⟩⟩ := Option.ite_none_right_eq_some.mp hs
    exact hcall rfl rfl
  | intern name fault =>
    obtain rfl := Option.some.inj hs
    exact ⟨fun _ _ _ _ ho => (nomatch ho), fun _ => ⟨(h.intern name fault).consistent,
      fun _ _ _ ho => (nomatch ho)⟩⟩

theorem Inv.step (h : Inv s) (hc : Condition s a) (hs : step s a = some s') : Inv s' := by
  cases a with
  | resolveScope owner key fault =>
    obtain ⟨-, ⟨⟩⟩ := Option.ite_none_right_eq_some.mp hs
    exact h.resolveScope (hc _ _ _ rfl)
  | scopedResolveScope scope key fault =>
    obtain ⟨-, ⟨⟩⟩ := Option.ite_none_right_eq_some.mp hs
    exact h.resolveScope (hc _ _ _ rfl)
  | intern name fault =>
    obtain rfl := Option.some.inj hs
    exact h.intern name fault

end Calls

/-! ## Runs -/

/-- In a run the scopes of the root are found after every step and every call is atomic, exactly
    if every call that puts a scope into a map goes through and takes the identifier of no scope
    of the root. -/
theorem scopes_atomic_iff (as : List Action) :
    (∀ k s a s', machine.run {} (as.take k) = some s → as[k]? = some a →
      machine.step s a = some s' → Keeps s a s') ↔
      machine.Along (fun s a => (step s a).isSome → Condition s a) {} as := by
  refine Machine.along_iff_forall_step (I := Inv) (Q := Keeps) (fun s a s' h hc hs => ?_)
    (fun s a s' h hs => ?_) (fun s a _ hs hsome => ?_) Inv.initial as
  · exact h.step (hc (Option.isSome_iff_exists.mpr ⟨s', hs⟩)) hs
  · rw [h.step_iff hs]
    exact ⟨fun hc _ => hc, fun hc => hc (Option.isSome_iff_exists.mpr ⟨s', hs⟩)⟩
  · have hnone : step s a = none := hs
    rw [hnone] at hsome
    cases hsome

/-- A name of `n` letters. -/
def letters (n : ℕ) : String := String.ofList (List.replicate n 'a')

/-- The names of at most `n` letters take the first identifiers. -/
def filling (n : ℕ) : List Action := (List.range n).map fun i => .intern (letters (i + 1)) none

theorem filling_succ (n : ℕ) :
    filling (n + 1) = filling n ++ [.intern (letters (n + 1)) none] := by
  rw [filling, List.range_succ, List.map_append]
  rfl

/-- The table has the names of at most `n` letters, and there are no scopes. -/
structure Filled (s : State) (n : ℕ) : Prop where
  size : s.names.size = n + 1
  names : ∀ e ∈ s.names.nameToId, e.1.length ≤ n ∧ e.1.toList.all (· = 'a')
  scopes : s.scopes = fun _ => []
  scopeChunks : s.scopeChunks = fun _ => none

theorem Filled.lookup_eq_none {s : State} {n : ℕ} (h : Filled s n) {name : String}
    (hempty : name ≠ "") (hname : n < name.length ∨ ¬ name.toList.all (· = 'a')) :
    s.names.lookup name = none := by
  rw [NameTable.lookup, if_neg hempty, Assoc.lookup_eq_none_iff_notMem]
  intro hmem
  obtain ⟨e, he, rfl⟩ := List.mem_map.mp hmem
  rcases hname with hlen | hall
  · exact absurd (h.names e he).1 (Nat.not_le_of_lt hlen)
  · exact hall (h.names e he).2

/-- Any number of identifiers can be taken. -/
theorem exists_filled (n : ℕ) : ∃ s, machine.run {} (filling n) = some s ∧ Filled s n := by
  induction n with
  | zero => exact ⟨{}, rfl, rfl, nofun, rfl, rfl⟩
  | succ n ih =>
    obtain ⟨s, hr, h⟩ := ih
    have hlen : (letters (n + 1)).length = n + 1 := by simp [letters]
    have hempty : letters (n + 1) ≠ "" := fun he => by
      rw [he] at hlen
      cases hlen
    have hnone := h.lookup_eq_none hempty (.inl (by rw [hlen]; exact Nat.lt_succ_self n))
    have hintern : (s.names.intern (letters (n + 1)) none).2 =
        ⟨s.names.nameToId ++ [(letters (n + 1), s.names.size % 2 ^ 32)], s.names.size + 1⟩ := by
      rw [NameTable.intern, hnone]
    refine ⟨{ s with names := (s.names.intern (letters (n + 1)) none).2 }, ?_, ?_, ?_, h.scopes,
      h.scopeChunks⟩
    · rw [filling_succ, Machine.run_append hr]
      rfl
    · simp only [hintern, h.size]
    · intro e he
      simp only [hintern] at he
      rcases List.mem_append.mp he with he | he
      · exact ⟨Nat.le_succ_of_le (h.names e he).1, (h.names e he).2⟩
      · rw [List.mem_singleton.mp he]
        exact ⟨Nat.le_of_eq hlen, by simp [letters]⟩

/-- When 65535 names are interned, the creation of a scope throws and leaves the scope in the
    map. -/
theorem resolveScope_not_atomic : ¬ ∀ k s a s',
    machine.run {} ((filling 65535 ++ [Action.resolveScope .root "x" none]).take k) = some s →
    (filling 65535 ++ [Action.resolveScope .root "x" none])[k]? = some a →
    machine.step s a = some s' → Keeps s a s' := by
  intro hkeeps
  obtain ⟨s, hr, h⟩ := exists_filled 65535
  have hlookup : s.names.lookup "x" = none := h.lookup_eq_none (by decide) (.inr (by decide))
  have hid : s.names.idFor "x" = (65535 + 1) % 2 ^ 32 := by
    rw [NameTable.idFor, hlookup, Option.getD_none, h.size]
  have hstep : machine.step s (.resolveScope .root "x" none) =
      some (s.resolveScope .root "x" none).2 := rfl
  generalize filling 65535 = as at hkeeps hr
  have hatomic := (hkeeps as.length s _ _ (by rwa [List.take_left]) (by simp) hstep).2 _ _ _ rfl
  rcases resolveScope_cases s .root "x" none with
    ⟨scope, hkey, -⟩ | ⟨-, ⟨hfault, -⟩ | ⟨-, ⟨hgo, -⟩ | ⟨-, hthrows, hmap⟩⟩⟩
  · rw [h.scopes] at hkey
    cases hkey
  · cases hfault
  · rw [State.GoesThrough, hid] at hgo
    exact absurd hgo.2.1 (by decide)
  · have hsame := congrFun (hatomic hthrows).1 .root
    rw [hmap] at hsame
    simp at hsame

/-- A scope that is known as a `BeanContext` creates a scope of its own, which takes the place of
    the root's scope of the same key. -/
theorem nested_scope_replaces : ∃ s, machine.run {}
      [.resolveScope .root "x" none, .resolveScope (.scope 0) "x" none] = some s ∧
    ¬ s.Consistent :=
  ⟨_, rfl, fun h => absurd (h ("x", 0) (by decide)).2 (by decide)⟩

end Ctorium.Scopes
