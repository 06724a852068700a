import Mathlib.Data.Multiset.AddSub
import Ctorium.Registry.Entries
import Ctorium.Registry.Slots

/-!
# What a context looks like from outside

The *view* of a context is what its selections depend on, without the identifiers that
interning has given out: the entries of its descriptors, as a multiset, what is pending,
whether it is started, the default names and the states of the scopes. `View.after` says
what a call does to the view, given whether the call succeeds.

* `Tracks.lookup_eq_some_iff`: a type is found by its index if and only if it was the first
  one interned under its name;
* `Tables.view_grown`: a registry that grows has the same view, with further entries.
-/

namespace Ctorium

open Attempt

/-! ## Types and their names -/

/-- The types of a program. A `std::type_index` identifies its type; types may share a name. -/
structure ProgramTypes where
  types : Set CppType
  identified : ∀ t ∈ types, ∀ t' ∈ types, t.index = t'.index → t = t'
  context : Registry.beanContextType ∈ types

namespace TypeInterning

variable {ti : TypeInterning} {type : CppType} {id : TypeId} {P : ProgramTypes}

/-- The type indices that have been interned, with their identifiers. -/
def indices (ti : TypeInterning) : List (ℕ × TypeId) := ti.indexToId ++ ti.overflowIndexToId

/-- The index of the type that was the first one interned under the name. -/
def firstIndex (ti : TypeInterning) (typeName : String) : Option ℕ :=
  (ti.indices.find? fun p => ti.nameOf p.2 == typeName).map Prod.fst

/-- The interned types are types of the program, and each identifier has one type index. -/
structure Tracks (P : ProgramTypes) (ti : TypeInterning) : Prop where
  named : ∀ p ∈ ti.indices, p.2 < ti.size ∧ ⟨ti.nameOf p.2, p.1⟩ ∈ P.types
  found : ∀ id < ti.size, ∃ index, (index, id) ∈ ti.indices
  unique : ∀ p ∈ ti.indices, ∀ q ∈ ti.indices, p.2 = q.2 → p = q

theorem lookup_eq_none_or_mem (ti : TypeInterning) (index : ℕ) :
    (ti.lookupByTypeIndex index = none ∧ ∀ id, (index, id) ∉ ti.indices) ∨
      ∃ id, ti.lookupByTypeIndex index = some id ∧ (index, id) ∈ ti.indices := by
  have hlookup : ti.lookupByTypeIndex index = ti.indices.lookup index := by
    rw [lookupByTypeIndex, indices, List.lookup_append]
  rw [hlookup]
  cases h : ti.indices.lookup index with
  | none =>
    left
    refine ⟨rfl, fun id hmem => ?_⟩
    have hne := List.lookup_eq_none_iff.mp h (index, id) hmem
    simp at hne
  | some id =>
    obtain ⟨l₁, l₂, heq, -⟩ := List.lookup_eq_some_iff.mp h
    right
    exact ⟨id, rfl, by simp [heq]⟩

/-- The identifier that is recorded with the index of a type carries the name of that type. -/
theorem Tracks.nameOf_eq (h : ti.Tracks P) (htype : type ∈ P.types)
    (hmem : (type.index, id) ∈ ti.indices) : ti.nameOf id = type.name :=
  congrArg CppType.name (P.identified _ (h.named _ hmem).2 type htype rfl)

theorem Tracks.firstIndex_eq_some_iff (h : ti.Tracks P) (hti : ti.Valid) {typeName : String}
    {index : ℕ} :
    ti.firstIndex typeName = some index ↔ ∃ id, (index, id) ∈ ti.indices ∧
      ti.nameOf id = typeName := by
  unfold firstIndex
  rw [Option.map_eq_some_iff]
  constructor
  · rintro ⟨⟨index, id⟩, hfind, rfl⟩
    exact ⟨id, List.mem_of_find?_eq_some hfind, by simpa using List.find?_some hfind⟩
  · rintro ⟨id, hmem, hname⟩
    obtain ⟨q, hq⟩ : ∃ q, ti.indices.find? (fun p => ti.nameOf p.2 == typeName) = some q :=
      Option.isSome_iff_exists.mp (List.find?_isSome.mpr ⟨_, hmem, by simpa using hname⟩)
    have hqmem := List.mem_of_find?_eq_some hq
    have hqname : ti.nameOf q.2 = typeName := by simpa using List.find?_some hq
    -- Names do not repeat, so the two have the same identifier.
    have hid := nameOf_injective hti (h.named _ hqmem).1 (h.named _ hmem).1
      (hqname.trans hname.symm)
    exact ⟨q, hq, congrArg Prod.fst (h.unique _ hqmem _ hmem hid)⟩

/-- A type is found if its name is interned and it was the first one of its name. -/
theorem Tracks.lookup_eq_some_iff (h : ti.Tracks P) (hti : ti.Valid) (htype : type ∈ P.types) :
    ti.lookupByTypeIndex type.index = some id ↔ id < ti.size ∧ ti.nameOf id = type.name ∧
      ti.firstIndex type.name = some type.index := by
  rw [h.firstIndex_eq_some_iff hti]
  constructor
  · intro hlookup
    rcases lookup_eq_none_or_mem ti type.index with ⟨hnone, -⟩ | ⟨id', hsome, hmem⟩
    · rw [hnone] at hlookup
      cases hlookup
    · rw [hsome] at hlookup
      obtain rfl := Option.some.inj hlookup
      have hname := h.nameOf_eq htype hmem
      exact ⟨(h.named _ hmem).1, hname, id', hmem, hname⟩
  · rintro ⟨hlt, hname, id₁, hmem₁, hname₁⟩
    have hid₁ := nameOf_injective hti (h.named _ hmem₁).1 hlt (hname₁.trans hname.symm)
    rcases lookup_eq_none_or_mem ti type.index with ⟨-, hnot⟩ | ⟨id', hsome, hmem⟩
    · exact absurd hmem₁ (hnot id₁)
    · rw [hsome, Option.some.injEq]
      exact nameOf_injective hti (h.named _ hmem).1 hlt ((h.nameOf_eq htype hmem).trans hname.symm)

/-- The first type of a name stays the first one. -/
theorem Tracks.firstIndex_mono {ti' : TypeInterning} (h : ti.Tracks P) (hti : ti.Valid)
    (h' : ti'.Tracks P) (hti' : ti'.Valid) (hsub : ti.indices ⊆ ti'.indices) {typeName : String}
    {index : ℕ} (hfirst : ti.firstIndex typeName = some index) :
    ti'.firstIndex typeName = some index := by
  obtain ⟨id, hmem, rfl⟩ := (h.firstIndex_eq_some_iff hti).mp hfirst
  exact (h'.firstIndex_eq_some_iff hti').mpr
    ⟨id, hsub hmem, h'.nameOf_eq (h.named _ hmem).2 (hsub hmem)⟩

theorem tracks_empty (P : ProgramTypes) : ({} : TypeInterning).Tracks P := ⟨nofun, nofun, nofun⟩

theorem Tracks.freeze (h : ti.Tracks P) : ti.freeze.Tracks P := ⟨h.named, h.found, h.unique⟩

theorem indices_subset_internByName (ti : TypeInterning) (type : CppType) :
    ti.indices ⊆ (ti.internByName type).2.indices := by
  intro p hp
  rcases List.mem_append.mp hp with hp | hp
  all_goals
    unfold internByName
    split
    · simp [indices, hp]
    · split_ifs
      · split <;> simp [indices, hp]
      · simp [indices, hp]

theorem mem_indices_internByName (hnew : (ti.internByName type).2 ≠ ti) (hti : ti.Valid)
    (p : ℕ × TypeId) :
    p ∈ (ti.internByName type).2.indices ↔ p ∈ ti.indices ∨ p = (type.index, ti.size) := by
  unfold internByName at hnew ⊢
  cases hid : ti.idToName.idxOf? type.name with
  | some id => simp [hid] at hnew
  | none =>
    cases hfrozen : ti.frozen with
    | false =>
      have hsize : ti.size = ti.idToName.length := by simp [size, hti.overflow hfrozen]
      simp only [Bool.false_eq_true, if_false, indices, List.mem_append, List.mem_singleton, hsize]
      tauto
    | true =>
      cases hover : ti.overflowIdToName.idxOf? type.name with
      | some i => simp [hid, hfrozen, hover] at hnew
      | none =>
        simp only [if_true, indices, List.mem_append, List.mem_singleton]
        tauto

theorem Tracks.internByName (h : ti.Tracks P) (hti : ti.Valid) (htype : type ∈ P.types) :
    (ti.internByName type).2.Tracks P := by
  by_cases hsame : (ti.internByName type).2 = ti
  · rwa [hsame]
  · have hmem := mem_indices_internByName hsame hti
    rcases internByName_cases hti type with ⟨hold, -, -⟩ | ⟨hid, -, -, hnames, -⟩
    · exact absurd hold hsame
    · have hsize : (ti.internByName type).2.size = ti.size + 1 := by
        rw [← length_allNames, hnames]
        simp
      constructor
      · intro p hp
        rcases (hmem p).mp hp with hp | rfl
        · obtain ⟨hlt, hprogram⟩ := h.named p hp
          refine ⟨hsize ▸ Nat.lt_succ_of_lt hlt, ?_⟩
          rw [nameOf_internByName hti hlt]
          exact hprogram
        · refine ⟨hsize ▸ Nat.lt_succ_self _, ?_⟩
          rw [← hid, nameOf_internByName_self hti type]
          exact htype
      · intro id hlt
        rw [hsize] at hlt
        rcases Nat.lt_succ_iff_lt_or_eq.mp hlt with hlt | rfl
        · obtain ⟨index, hindex⟩ := h.found id hlt
          exact ⟨index, (hmem _).mpr (.inl hindex)⟩
        · exact ⟨type.index, (hmem _).mpr (.inr rfl)⟩
      · -- The new identifier is none of the old ones.
        have hnew : ∀ q ∈ ti.indices, q.2 ≠ ti.size := fun q hq => (h.named q hq).1.ne
        intro p hp q hq hid
        rcases (hmem p).mp hp with hp | rfl <;> rcases (hmem q).mp hq with hq | rfl
        · exact h.unique p hp q hq hid
        · exact absurd hid (hnew p hp)
        · exact absurd hid.symm (hnew q hq)
        · rfl

/-- The identifier of a type name. -/
def idOf (ti : TypeInterning) (typeName : String) : Option TypeId := ti.allNames.idxOf? typeName

theorem idOf_eq_some_iff (hti : ti.Valid) {typeName : String} :
    ti.idOf typeName = some id ↔ id < ti.size ∧ ti.nameOf id = typeName := by
  rw [idOf, List.idxOf?_eq_some_iff, ← length_allNames]
  constructor
  · rintro ⟨hlt, hget, -⟩
    exact ⟨hlt, by rw [nameOf, List.getD_eq_getElem _ _ hlt, hget]⟩
  · rintro ⟨hlt, hname⟩
    rw [nameOf, List.getD_eq_getElem _ _ hlt] at hname
    refine ⟨hlt, hname, fun j hj hget => ?_⟩
    have heq := (hti.nodup.getElem_inj_iff).mp (hget.trans hname.symm)
    omega

end TypeInterning

/-! ## Views -/

/-- What the selections of a context depend on. -/
structure View where
  /-- The entries of the descriptors. -/
  bag : Multiset Entry
  /-- The contributions submitted. -/
  pending : List ContributedDescriptor
  /-- The entries of the singletons that wait for the start. -/
  singletons : List Entry
  started : Bool
  /-- The default names of the root and of the scopes, empty if there is none. -/
  defaults : Option ScopeId → String → String
  scopeStates : ScopeId → ScopeState

namespace View

def addEntries (v : View) (es : Multiset Entry) : View := { v with bag := v.bag + es }

def setDefault (v : View) (scope : Option ScopeId) (typeName name : String) : View :=
  { v with
    defaults := Function.update v.defaults scope
      (Function.update (v.defaults scope) typeName name) }

def setState (v : View) (scope : ScopeId) (state : ScopeState) : View :=
  { v with scopeStates := Function.update v.scopeStates scope state }

/-- The entries that a merge adds. -/
def merged (v : View) : List Entry :=
  (Registry.newContributions [] v.pending).map Registry.contributedEntry ++ v.singletons

def afterStop (v : View) (scope : ScopeId) : View :=
  if v.scopeStates scope = .running then v.setState scope .stopped else v

/-- What a call does, given whether it takes effect. (A start that fails is taken to have merged
    what was pending.) -/
def after (v : View) (call : BeanContext.Call) (ok : Bool) : View :=
  match call with
  | .discover cds => if ok then { v with pending := v.pending ++ cds } else v
  | .bindSingleton type name priority _ =>
    let e := Registry.boundEntry type.name name priority .singleton
    if !ok then v
    else if v.started then v.addEntries {e}
    else { v with singletons := v.singletons ++ [e] }
  | .bindSession _ type name priority _ =>
    let e := Registry.boundEntry type.name name priority .session
    -- A started registry uses the descriptor of an earlier binding again.
    if ok = false ∨ v.started = true ∧ e ∈ v.bag then v else v.addEntries {e}
  | .defaultNamed scope type name => if ok then v.setDefault scope type.name name else v
  | .clearDefaultNamed scope type => if ok then v.setDefault scope type.name "" else v
  | .start =>
    if v.started then v
    else
      let merged := { v.addEntries v.merged with singletons := [] }
      if ok then { merged.addEntries {Registry.contextEntry} with started := true } else merged
  | .startScope scope => if ok then v.setState scope .running else v
  | .stopScope scope => v.afterStop scope
  | .restartScope scope => if ok then v.setState scope .running else v.afterStop scope

end View

namespace BeanContext

variable {b b' : BeanContext} {P : ProgramTypes}

/-- The default names of the root or of a scope. -/
def defaultsTable (b : BeanContext) : Option ScopeId → DefaultsTable
  | none => b.core.defaults
  | some sc => (b.scopes sc).scopedDefaults

def defaultText (b : BeanContext) (scope : Option ScopeId) (typeName : String) : String :=
  match b.core.typeInterning.idOf typeName with
  | none => ""
  | some typeId => b.core.nameInterning.nameOf ((b.defaultsTable scope).getDefault typeId)

def view (b : BeanContext) : View where
  bag := b.core.entries
  pending := b.core.pending
  singletons := b.core.pendingEntries
  started := b.core.started
  defaults := b.defaultText
  scopeStates sc := (b.scopes sc).scopeState

/-- The tables of a context of a program with the given types. -/
structure Tables (P : ProgramTypes) (b : BeanContext) : Prop where
  interned : b.core.Interned
  tracks : b.core.typeInterning.Tracks P
  contributed : ∀ cd ∈ b.core.pending, cd.exposedType ∈ P.types ∧ cd.concreteType ∈ P.types
  pendingTypes : ∀ pb ∈ b.core.pendingRuntimeSingletons, pb.type ∈ P.types
  defaultsNamed : ∀ scope typeId, (b.defaultsTable scope).getDefault typeId <
    b.core.nameInterning.size
  defaultsSized : b.core.defaults.size ≤ b.core.typeInterning.size
  scopeSized : ∀ sc, (b.scopes sc).scopedDefaults.size = 0 ∨
    b.core.started = true ∧ (b.scopes sc).scopedDefaults.size = b.core.defaults.size
  unmerged : b.core.started = false → b.core.beanContextDescId = none ∧ b.core.defaults.size = 0
  flushed : b.core.started = true → ∀ typeId, b.core.typeIndex.pending typeId = []

theorem Tables.table_size_le (h : b.Tables P) (scope : Option ScopeId) :
    (b.defaultsTable scope).size ≤ b.core.typeInterning.size := by
  cases scope with
  | none => exact h.defaultsSized
  | some sc =>
    rcases h.scopeSized sc with hzero | ⟨-, heq⟩
    · exact hzero ▸ Nat.zero_le _
    · exact heq ▸ h.defaultsSized

theorem getDefault_eq_kUnnamed {dt : DefaultsTable} {typeId : TypeId} (h : dt.size ≤ typeId) :
    dt.getDefault typeId = kUnnamed := if_pos h

/-- The default names in larger interning tables. -/
theorem Tables.defaultText_eq {c : BeanContext} (h : b.Tables P)
    (hext : Registry.Extends b.core c.core)
    (hvalid : c.core.Indexed) (htables : c.defaultsTable = b.defaultsTable) :
    c.defaultText = b.defaultText := by
  funext scope typeName
  have hti := h.interned.indexed.types
  have hti' := hvalid.types
  unfold defaultText
  rw [htables]
  cases hid : b.core.typeInterning.idOf typeName with
  | some id =>
    obtain ⟨hlt, hname⟩ := (TypeInterning.idOf_eq_some_iff hti).mp hid
    have hid' : c.core.typeInterning.idOf typeName = some id :=
      (TypeInterning.idOf_eq_some_iff hti').mpr
        ⟨hlt.trans_le hext.typesSize, (hext.types id hlt).trans hname⟩
    rw [hid']
    exact hext.names _ (h.defaultsNamed scope id)
  | none =>
    cases hid' : c.core.typeInterning.idOf typeName with
    | none => rfl
    | some id =>
      -- The type is new, so there is no room for a default name.
      obtain ⟨-, hname⟩ := (TypeInterning.idOf_eq_some_iff hti').mp hid'
      have hnew : b.core.typeInterning.size ≤ id := by
        by_contra hlt
        have hlt := Nat.lt_of_not_le hlt
        have hold := (TypeInterning.idOf_eq_some_iff hti).mpr
          ⟨hlt, (hext.types id hlt).symm.trans hname⟩
        rw [hid] at hold
        cases hold
      have hdefault := getDefault_eq_kUnnamed ((h.table_size_le scope).trans hnew)
      simp only [hdefault]
      exact NameInterning.nameOf_kUnnamed hvalid.names

/-! ## Contexts that grow -/

/-- The registry has larger interning tables and further entries, and is otherwise the same to
    the view. -/
structure Grown (P : ProgramTypes) (b b' : BeanContext) (es : List Entry) : Prop where
  interned : b'.core.Interned
  tracks : b'.core.typeInterning.Tracks P
  larger : Registry.Extends b.core b'.core
  entries : b'.core.entries = b.core.entries ++ es
  tables : b'.defaultsTable = b.defaultsTable
  contextId : b'.core.beanContextDescId = b.core.beanContextDescId
  pending : b'.core.pending = b.core.pending
  singletons : b'.core.pendingRuntimeSingletons = b.core.pendingRuntimeSingletons
  started : b'.core.started = b.core.started
  states : ∀ sc, (b'.scopes sc).scopeState = (b.scopes sc).scopeState
  flushed : b'.core.started = true → ∀ typeId, b'.core.typeIndex.pending typeId = []

theorem Tables.grown (h : b.Tables P) {es : List Entry} (hg : Grown P b b' es) : b'.Tables P := by
  have hroot : b'.core.defaults = b.core.defaults := congrFun hg.tables none
  refine ⟨hg.interned, hg.tracks, ?_, ?_, fun scope typeId => ?_, ?_, fun sc => ?_, fun hs => ?_,
    hg.flushed⟩
  · rw [hg.pending]
    exact h.contributed
  · rw [hg.singletons]
    exact h.pendingTypes
  · rw [hg.tables]
    exact (h.defaultsNamed scope typeId).trans_le hg.larger.namesSize
  · rw [hroot]
    exact h.defaultsSized.trans hg.larger.typesSize
  · have hscope : (b'.scopes sc).scopedDefaults = (b.scopes sc).scopedDefaults :=
      congrFun hg.tables (some sc)
    rw [hscope, hroot, hg.started]
    exact h.scopeSized sc
  · rw [hg.contextId, hroot]
    exact h.unmerged (hg.started ▸ hs)

theorem Tables.view_grown (h : b.Tables P) {es : List Entry} (hg : Grown P b b' es) :
    b'.view = b.view.addEntries es := by
  have hstates : (fun sc => (b'.scopes sc).scopeState) = fun sc => (b.scopes sc).scopeState :=
    funext hg.states
  simp only [view, View.addEntries, hg.entries, hg.pending, hg.started, hstates,
    hg.larger.pendingEntries h.interned hg.singletons,
    h.defaultText_eq hg.larger hg.interned.indexed hg.tables, Multiset.coe_add]

theorem Tables.grown_refl (h : b.Tables P) : Grown P b b [] :=
  ⟨h.interned, h.tracks, .refl _, (List.append_nil _).symm, rfl, rfl, rfl, rfl, rfl, fun _ => rfl,
    h.flushed⟩

theorem Grown.trans {b'' : BeanContext} {es es' : List Entry} (h : Grown P b b' es)
    (h' : Grown P b' b'' es') : Grown P b b'' (es ++ es') where
  interned := h'.interned
  tracks := h'.tracks
  larger := h.larger.trans h'.larger
  entries := by rw [h'.entries, h.entries, List.append_assoc]
  tables := h'.tables.trans h.tables
  contextId := h'.contextId.trans h.contextId
  pending := h'.pending.trans h.pending
  singletons := h'.singletons.trans h.singletons
  started := h'.started.trans h.started
  states sc := (h'.states sc).trans (h.states sc)
  flushed := h'.flushed

/-- A change of the scopes that keeps their default names and states. -/
theorem Grown.withScopes {es : List Entry} {c : BeanContext} (h : Grown P b b' es)
    (hcore : c.core = b'.core)
    (hscopes : ∀ sc, (c.scopes sc).scopedDefaults = (b'.scopes sc).scopedDefaults ∧
      (c.scopes sc).scopeState = (b'.scopes sc).scopeState) : Grown P b c es := by
  obtain ⟨self, core, scopes⟩ := c
  obtain rfl : core = b'.core := hcore
  refine ⟨h.interned, h.tracks, h.larger, h.entries, ?_, h.contextId, h.pending, h.singletons,
    h.started, fun sc => (hscopes sc).2.trans (h.states sc), h.flushed⟩
  funext scope
  rw [← h.tables]
  cases scope with
  | none => rfl
  | some sc => exact (hscopes sc).1

theorem Tables.internName (h : b.Tables P) (name : String) :
    Grown P b (b.withCore (b.core.withNames (b.core.nameInterning.intern name).2)) [] where
  interned := h.interned.withNames name
  tracks := h.tracks
  larger := h.interned.extends_names name
  entries := by
    rw [List.append_nil]
    exact (h.interned.extends_names name).entries h.interned rfl
  tables := by
    funext scope
    cases scope <;> rfl
  contextId := rfl
  pending := rfl
  singletons := rfl
  started := rfl
  states _ := rfl
  flushed := h.flushed

theorem Tables.internType (h : b.Tables P) {type : CppType} (htype : type ∈ P.types) :
    Grown P b (b.withCore (b.core.withTypes (b.core.typeInterning.internByName type).2)) [] where
  interned := h.interned.withTypes type
  tracks := h.tracks.internByName h.interned.indexed.types htype
  larger := h.interned.extends_types type
  entries := by
    rw [List.append_nil]
    exact (h.interned.extends_types type).entries h.interned rfl
  tables := by
    funext scope
    cases scope <;> rfl
  contextId := rfl
  pending := rfl
  singletons := rfl
  started := rfl
  states _ := rfl
  flushed := h.flushed

/-- The type of a binding has its name, found or interned. -/
theorem Tables.sessionType (h : b.Tables P) {type : CppType} (htype : type ∈ P.types) :
    Grown P b (b.withCore (b.core.withTypes (b.core.sessionType type).2)) [] ∧
      (b.core.sessionType type).2.nameOf (b.core.sessionType type).1 = type.name := by
  have hti := h.interned.indexed.types
  have hintern := And.intro (h.internType htype) (TypeInterning.nameOf_internByName_self hti type)
  unfold Registry.sessionType
  split_ifs
  · unfold Registry.adoptType
    split
    · next typeId hid =>
      exact ⟨h.grown_refl, ((h.tracks.lookup_eq_some_iff hti htype).mp hid).2.1⟩
    · exact hintern
  · exact hintern

/-- A candidate that is published on a started registry, or appended to one before its start. -/
theorem Tables.candidate (h : b.Tables P) {core : Registry} {d : Descriptor}
    (htype : d.exposedType < b.core.typeInterning.size) (hname : d.name < b.core.nameInterning.size)
    (hcore : core = b.core.publishCandidate d ∨
      b.core.started = false ∧ core = b.core.appendCandidate d) :
    Grown P b (b.withCore core) [b.core.entryOf d] := by
  have hinterned := h.interned.appendCandidate htype hname
  have hentries := Registry.entries_appendCandidate b.core d
  have htables : ∀ core : Registry, core.defaults = b.core.defaults →
      (b.withCore core).defaultsTable = b.defaultsTable := by
    intro core hdefaults
    funext scope
    cases scope with
    | none => exact hdefaults
    | some sc => rfl
  rcases hcore with rfl | ⟨hnot, rfl⟩
  · exact ⟨⟨h.interned.indexed.publishCandidate htype, hinterned.named,
      hinterned.pending⟩, h.tracks,
      ⟨fun _ _ => rfl, fun _ _ => rfl, le_rfl, le_rfl⟩, hentries, htables _ rfl, rfl, rfl, rfl, rfl,
      fun _ => rfl, fun _ _ => rfl⟩
  · refine ⟨hinterned, h.tracks, ⟨fun _ _ => rfl, fun _ _ => rfl, le_rfl, le_rfl⟩, hentries,
      htables _ rfl, rfl, rfl, rfl, rfl, fun _ => rfl, fun hs => ?_⟩
    have hstarted : b.core.started = true := hs
    rw [hnot] at hstarted
    cases hstarted

end BeanContext

end Ctorium
