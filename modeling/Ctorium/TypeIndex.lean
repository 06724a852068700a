import Mathlib.Data.List.GetD
import Mathlib.Data.List.Sort
import Mathlib.Logic.Function.Basic
import Ctorium.Basic
import Ctorium.Lib.StdSort
import Ctorium.Lib.UniqueMax

/-!
# Interning and the type index

The tables that resolution reads: the interning of type names and of bean names,
the default names, and the index from a type and a name to the candidate
descriptors of this key.

* A type is interned under its qualified name and looked up under its
  `std::type_index`. Types that are interned after the freeze go to an overflow
  table, whose identifiers continue those of the main table.
* Until the index is first sorted, candidates wait in a pending buffer; from then
  on they are appended to the candidate vector of their key. `sortAllCandidates`
  flushes the buffer, sorts every candidate vector by descending priority, and
  computes anew the two caches that resolution reads: the head and the ambiguity
  bit of each key, and the only unnamed candidate of each type.
-/

namespace Ctorium

/-- The dense identifier of an interned type. -/
abbrev TypeId := ℕ

/-- The dense identifier of an interned bean name. -/
abbrev NameId := ℕ

/-- The identifier of the empty name. -/
def kUnnamed : NameId := 0

/-- A C++ type: its qualified name and its `std::type_index`. -/
structure CppType where
  name : String
  index : ℕ
  deriving DecidableEq, Repr

/-! ## Interning -/

/-- The interning of types. The position of a name in a table is its identifier;
    of several entries with one `std::type_index`, the first one counts. -/
structure TypeInterning where
  idToName : List String := []
  indexToId : List (ℕ × TypeId) := []
  overflowIdToName : List String := []
  overflowIndexToId : List (ℕ × TypeId) := []
  frozen : Bool := false

namespace TypeInterning

/-- The names of all interned types, in the order of their identifiers. -/
def allNames (ti : TypeInterning) : List String := ti.idToName ++ ti.overflowIdToName

def size (ti : TypeInterning) : ℕ := ti.idToName.length + ti.overflowIdToName.length

def nameOf (ti : TypeInterning) (id : TypeId) : String := ti.allNames.getD id ""

/-- The identifier of a type, which is interned if its name is new. -/
def internByName (ti : TypeInterning) (type : CppType) : TypeId × TypeInterning :=
  match ti.idToName.idxOf? type.name with
  | some id => (id, ti)
  | none =>
    if ti.frozen then
      match ti.overflowIdToName.idxOf? type.name with
      | some i => (ti.idToName.length + i, ti)
      | none => (ti.size, { ti with
          overflowIdToName := ti.overflowIdToName ++ [type.name]
          overflowIndexToId := ti.overflowIndexToId ++ [(type.index, ti.size)] })
    else (ti.idToName.length, { ti with
      idToName := ti.idToName ++ [type.name]
      indexToId := ti.indexToId ++ [(type.index, ti.idToName.length)] })

def lookupByTypeIndex (ti : TypeInterning) (index : ℕ) : Option TypeId :=
  (ti.indexToId.lookup index).or (ti.overflowIndexToId.lookup index)

def freeze (ti : TypeInterning) : TypeInterning := { ti with frozen := true }

/-- What holds of every interning table: names do not repeat, the overflow table is
    empty before the freeze, and only interned types are found. -/
structure Valid (ti : TypeInterning) : Prop where
  nodup : ti.allNames.Nodup
  overflow : ti.frozen = false → ti.overflowIdToName = []
  found : ∀ index id, ti.lookupByTypeIndex index = some id → id < ti.size

variable {ti : TypeInterning} {type : CppType} {id : TypeId}

@[simp] theorem length_allNames : ti.allNames.length = ti.size := List.length_append

@[simp] theorem freeze_allNames : ti.freeze.allNames = ti.allNames := rfl

@[simp] theorem freeze_nameOf : ti.freeze.nameOf id = ti.nameOf id := rfl

@[simp] theorem freeze_size : ti.freeze.size = ti.size := rfl

theorem valid_empty : ({} : TypeInterning).Valid := ⟨List.nodup_nil, fun _ => rfl, nofun⟩

theorem nameOf_mem (hid : id < ti.size) : ti.nameOf id ∈ ti.allNames := by
  rw [nameOf, List.getD_eq_getElem _ _ (length_allNames ▸ hid)]
  exact List.getElem_mem _

theorem Valid.freeze (h : ti.Valid) : ti.freeze.Valid := ⟨h.nodup, nofun, h.found⟩

/-- The outcomes of interning: the name is there already, or it is added at the end. -/
theorem internByName_cases (h : ti.Valid) (type : CppType) :
    ((ti.internByName type).2 = ti ∧ (ti.internByName type).1 < ti.size ∧
        ti.nameOf (ti.internByName type).1 = type.name) ∨
      ((ti.internByName type).1 = ti.size ∧ type.name ∉ ti.allNames ∧
        (ti.internByName type).2.frozen = ti.frozen ∧
        (ti.internByName type).2.allNames = ti.allNames ++ [type.name] ∧
        (ti.frozen = false → (ti.internByName type).2.overflowIdToName = [])) := by
  unfold internByName nameOf allNames size
  -- The type is known, goes into the map of the start, or into the overflow table.
  cases hid : ti.idToName.idxOf? type.name with
  | some id =>
    obtain ⟨hlt, hget, -⟩ := List.idxOf?_eq_some_iff.mp hid
    left
    refine ⟨rfl, Nat.lt_add_right _ hlt, ?_⟩
    rw [List.getD_append _ _ _ _ hlt, List.getD_eq_getElem _ _ hlt, hget]
  | none =>
    have hnotin := List.idxOf?_eq_none_iff.mp hid
    cases hfrozen : ti.frozen with
    | false =>
      have hover := h.overflow hfrozen
      right
      simp [hover, hnotin]
    | true =>
      cases hover : ti.overflowIdToName.idxOf? type.name with
      | some i =>
        obtain ⟨hlt, hget, -⟩ := List.idxOf?_eq_some_iff.mp hover
        left
        refine ⟨rfl, Nat.add_lt_add_left hlt _, ?_⟩
        simp only [if_true]
        rw [List.getD_append_right _ _ _ _ (Nat.le_add_right _ _), Nat.add_sub_cancel_left,
          List.getD_eq_getElem _ _ hlt, hget]
      | none =>
        have hnotover := List.idxOf?_eq_none_iff.mp hover
        right
        simp [hnotin, hnotover]

theorem lookup_singleton_eq {index index' : ℕ} {id' : TypeId}
    (h : List.lookup index [(index', id')] = some id) : id = id' := by
  rw [List.lookup_cons, List.lookup_nil] at h
  split at h
  · exact (Option.some.inj h).symm
  · exact absurd h nofun

/-- The types that are found after interning: those found before, or the new one. -/
theorem lookupByTypeIndex_internByName {index : ℕ} (h : ti.Valid)
    (hid : (ti.internByName type).2.lookupByTypeIndex index = some id) :
    ti.lookupByTypeIndex index = some id ∨ id = ti.size := by
  unfold internByName at hid
  -- A new entry is the one for the type itself, under the next identifier.
  cases hname : ti.idToName.idxOf? type.name with
  | some id => exact .inl (by simpa [hname] using hid)
  | none =>
    cases hfrozen : ti.frozen with
    | false =>
      have hsize : ti.size = ti.idToName.length := by simp [size, h.overflow hfrozen]
      simp only [hname, hfrozen, Bool.false_eq_true, if_false, lookupByTypeIndex,
        List.lookup_append] at hid ⊢
      rw [hsize]
      cases hold : ti.indexToId.lookup index with
      | some id' => exact .inl (by simpa [hold] using hid)
      | none =>
        rw [hold, Option.none_or] at hid
        rw [Option.none_or]
        rcases Option.or_eq_some_iff.mp hid with hnew | ⟨-, hid⟩
        · exact .inr (lookup_singleton_eq hnew)
        · exact .inl hid
    | true =>
      cases hover : ti.overflowIdToName.idxOf? type.name with
      | some i => exact .inl (by simpa [hname, hfrozen, hover] using hid)
      | none =>
        simp only [hname, hfrozen, hover, if_true, lookupByTypeIndex, List.lookup_append,
          ← Option.or_assoc] at hid ⊢
        rcases Option.or_eq_some_iff.mp hid with hid | ⟨-, hnew⟩
        · exact .inl hid
        · exact .inr (lookup_singleton_eq hnew)

/-- A type with a new name is found from now on, unless its `std::type_index` was known. -/
theorem lookupByTypeIndex_internByName_of_new (h : ti.Valid)
    (hover : ti.frozen = false → ti.overflowIndexToId = []) (hnew : type.name ∉ ti.allNames)
    (index : ℕ) :
    (ti.internByName type).2.lookupByTypeIndex index = (ti.lookupByTypeIndex index).or
      (if type.index = index then some ti.size else none) := by
  have hnone : ti.idToName.idxOf? type.name = none :=
    List.idxOf?_eq_none_iff.mpr fun hmem => hnew (List.mem_append_left _ hmem)
  have hsingleton : List.lookup index [(type.index, ti.size)] =
      if type.index = index then some ti.size else none := by
    by_cases hindex : type.index = index
    · simp [hindex]
    · simp [hindex, Ne.symm hindex]
  cases hfrozen : ti.frozen with
  | false =>
    have hsize : ti.size = ti.idToName.length := by simp [size, h.overflow hfrozen]
    rw [hsize] at hsingleton ⊢
    simp only [internByName, hnone, hfrozen, Bool.false_eq_true, if_false, lookupByTypeIndex,
      List.lookup_append, hover hfrozen, List.lookup_nil, Option.or_none, hsingleton]
  | true =>
    have hnoneover : ti.overflowIdToName.idxOf? type.name = none :=
      List.idxOf?_eq_none_iff.mpr fun hmem => hnew (List.mem_append_right _ hmem)
    simp only [internByName, hnone, hfrozen, if_true, hnoneover, lookupByTypeIndex,
      List.lookup_append, hsingleton, Option.or_assoc]

theorem frozen_internByName (type : CppType) : (ti.internByName type).2.frozen = ti.frozen := by
  unfold internByName
  split
  · rfl
  · split
    · split <;> rfl
    · rfl

theorem overflowIndexToId_internByName (h : ti.frozen = false) (type : CppType) :
    (ti.internByName type).2.overflowIndexToId = ti.overflowIndexToId := by
  unfold internByName
  split
  · rfl
  · rw [if_neg (by simp [h])]

theorem Valid.internByName (h : ti.Valid) (type : CppType) : (ti.internByName type).2.Valid := by
  rcases internByName_cases h type with ⟨hsame, -, -⟩ | ⟨-, hnew, hfrozen, hnames, hover⟩
  · rwa [hsame]
  · have hsize := congrArg List.length hnames
    simp only [length_allNames, List.length_append, List.length_singleton] at hsize
    refine ⟨?_, fun hf => hover (hfrozen ▸ hf), fun index id hid => ?_⟩
    · rw [hnames]
      refine List.nodup_append.mpr ⟨h.nodup, List.nodup_singleton _, fun a ha b hb hab => ?_⟩
      exact hnew (List.mem_singleton.mp hb ▸ hab ▸ ha)
    · rw [hsize]
      rcases lookupByTypeIndex_internByName h hid with hid | rfl
      · exact Nat.lt_succ_of_lt (h.found index id hid)
      · exact Nat.lt_succ_self _

/-- Interning leaves the names of the existing identifiers alone. -/
theorem nameOf_internByName (h : ti.Valid) (hid : id < ti.size) :
    (ti.internByName type).2.nameOf id = ti.nameOf id := by
  rcases internByName_cases h type with ⟨hsame, -, -⟩ | ⟨-, -, -, hnames, -⟩
  · rw [hsame]
  · rw [nameOf, hnames, List.getD_append _ _ _ _ (by simpa using hid), nameOf]

/-- The identifier of a type is the one with the name of the type. -/
theorem nameOf_internByName_self (h : ti.Valid) (type : CppType) :
    (ti.internByName type).2.nameOf (ti.internByName type).1 = type.name := by
  rcases internByName_cases h type with ⟨hsame, -, hname⟩ | ⟨hid, -, -, hnames, -⟩
  · rw [hsame, hname]
  · rw [nameOf, hnames, hid, List.getD_append_right _ _ _ _ (by simp)]
    simp

theorem internByName_lt (h : ti.Valid) (type : CppType) :
    (ti.internByName type).1 < (ti.internByName type).2.size := by
  rcases internByName_cases h type with ⟨hsame, hlt, -⟩ | ⟨hid, -, -, hnames, -⟩
  · rwa [hsame]
  · have hsize := congrArg List.length hnames
    simp only [length_allNames, List.length_append, List.length_singleton] at hsize
    rw [hid, hsize]
    exact Nat.lt_succ_self _

theorem size_le_internByName (h : ti.Valid) (type : CppType) :
    ti.size ≤ (ti.internByName type).2.size := by
  rcases internByName_cases h type with ⟨hsame, -, -⟩ | ⟨-, -, -, hnames, -⟩
  · exact hsame.symm ▸ le_refl _
  · have hsize := congrArg List.length hnames
    simp only [length_allNames, List.length_append, List.length_singleton] at hsize
    omega

theorem nameOf_injective (h : ti.Valid) {id' : TypeId} (hid : id < ti.size) (hid' : id' < ti.size)
    (heq : ti.nameOf id = ti.nameOf id') : id = id' := by
  rw [← length_allNames] at hid hid'
  rw [nameOf, nameOf, List.getD_eq_getElem _ _ hid, List.getD_eq_getElem _ _ hid'] at heq
  exact (h.nodup.getElem_inj_iff).mp heq

end TypeInterning

/-- The interning of bean names. The empty name is there from the start. -/
structure NameInterning where
  idToName : List String := [""]

namespace NameInterning

def size (ni : NameInterning) : ℕ := ni.idToName.length

def nameOf (ni : NameInterning) (id : NameId) : String := ni.idToName.getD id ""

/-- The identifier of a name, which is interned if it is new. -/
def intern (ni : NameInterning) (beanName : String) : NameId × NameInterning :=
  if beanName = "" then (kUnnamed, ni)
  else match ni.idToName.idxOf? beanName with
    | some id => (id, ni)
    | none => (ni.size, { ni with idToName := ni.idToName ++ [beanName] })

def lookup (ni : NameInterning) (beanName : String) : Option NameId :=
  if beanName = "" then some kUnnamed else ni.idToName.idxOf? beanName

/-- What holds of every interning table: names do not repeat, and the first one is the
    empty name. -/
structure Valid (ni : NameInterning) : Prop where
  nodup : ni.idToName.Nodup
  unnamed : ni.idToName.head? = some ""

variable {ni : NameInterning} {beanName : String} {id : NameId}

/-- The outcomes of interning: the name is there already, or it is added at the end. -/
theorem intern_cases (h : ni.Valid) (beanName : String) :
    ((ni.intern beanName).2 = ni ∧ (ni.intern beanName).1 < ni.size ∧
        ni.nameOf (ni.intern beanName).1 = beanName) ∨
      ((ni.intern beanName).1 = ni.size ∧ beanName ∉ ni.idToName ∧
        (ni.intern beanName).2.idToName = ni.idToName ++ [beanName]) := by
  obtain ⟨names, hnames⟩ : ∃ names, ni.idToName = "" :: names := by
    cases hn : ni.idToName with
    | nil => exact absurd (hn ▸ h.unnamed) nofun
    | cons a l => exact ⟨l, by rw [show a = "" by simpa [hn] using h.unnamed]⟩
  unfold intern
  split_ifs with hempty
  · left
    simp [nameOf, size, hnames, kUnnamed, hempty]
  · cases hid : ni.idToName.idxOf? beanName with
    | some id =>
      obtain ⟨hlt, hget, -⟩ := List.idxOf?_eq_some_iff.mp hid
      left
      exact ⟨rfl, hlt, by rw [nameOf, List.getD_eq_getElem _ _ hlt, hget]⟩
    | none =>
      right
      exact ⟨rfl, List.idxOf?_eq_none_iff.mp hid, rfl⟩

theorem Valid.intern (h : ni.Valid) (beanName : String) : (ni.intern beanName).2.Valid := by
  rcases intern_cases h beanName with ⟨hsame, -, -⟩ | ⟨-, hnew, hnames⟩
  · rwa [hsame]
  · refine ⟨?_, ?_⟩
    · rw [hnames]
      refine List.nodup_append.mpr ⟨h.nodup, List.nodup_singleton _, fun a ha b hb hab => ?_⟩
      exact hnew (List.mem_singleton.mp hb ▸ hab ▸ ha)
    · rw [hnames, List.head?_append, h.unnamed]
      rfl

/-- Interning leaves the names of the existing identifiers alone. -/
theorem nameOf_intern (h : ni.Valid) (hid : id < ni.size) :
    (ni.intern beanName).2.nameOf id = ni.nameOf id := by
  rcases intern_cases h beanName with ⟨hsame, -, -⟩ | ⟨-, -, hnames⟩
  · rw [hsame]
  · rw [nameOf, hnames, List.getD_append _ _ _ _ hid, nameOf]

/-- The identifier of a name is the one with this name. -/
theorem nameOf_intern_self (h : ni.Valid) (beanName : String) :
    (ni.intern beanName).2.nameOf (ni.intern beanName).1 = beanName := by
  rcases intern_cases h beanName with ⟨hsame, -, hname⟩ | ⟨hid, -, hnames⟩
  · rw [hsame, hname]
  · simp [nameOf, hnames, hid, size]

/-- Only the empty name is the unnamed key. -/
theorem intern_eq_kUnnamed_iff (h : ni.Valid) :
    (ni.intern beanName).1 = kUnnamed ↔ beanName = "" := by
  have hself := nameOf_intern_self h beanName
  constructor
  · intro hid
    have hhead := (h.intern beanName).unnamed
    rw [hid, nameOf, kUnnamed] at hself
    cases hl : (ni.intern beanName).2.idToName with
    | nil => simp [hl] at hhead
    | cons a l => simp_all
  · rintro rfl
    simp [intern]

end NameInterning

/-! ## Default names -/

/-- The default names of the types that were known when the table was sized. -/
structure DefaultsTable where
  size : ℕ := 0
  defaults : TypeId → NameId := fun _ => kUnnamed

namespace DefaultsTable

def resize (typeCount : ℕ) : DefaultsTable := { size := typeCount }

def setDefault (dt : DefaultsTable) (typeId : TypeId) (nameId : NameId) : DefaultsTable :=
  { dt with defaults := Function.update dt.defaults typeId nameId }

def getDefault (dt : DefaultsTable) (typeId : TypeId) : NameId :=
  if dt.size ≤ typeId then kUnnamed else dt.defaults typeId

end DefaultsTable

/-! ## The candidates of a key -/

/-- The candidates of a key, with the cached selection from them: the candidate of
    highest priority, and whether the second one has the same priority. -/
structure NameEntry where
  candidates : List DescriptorId := []
  head : Option DescriptorId := none
  ambiguous : Bool := false

/-- The index from types and names to candidates. -/
structure TypeIndex where
  entries : TypeId → NameId → Option NameEntry := fun _ _ => none
  pending : TypeId → List (NameId × DescriptorId) := fun _ => []
  singleUnnamed : TypeId → Option DescriptorId := fun _ => none
  finalized : Bool := false

namespace TypeIndex

def candidatesFor (ix : TypeIndex) (typeId : TypeId) (nameId : NameId) :
    Option (List DescriptorId) :=
  (ix.entries typeId nameId).map NameEntry.candidates

/-- The candidates of a key that wait in the pending buffer. -/
def pendingFor (ix : TypeIndex) (typeId : TypeId) (nameId : NameId) : List DescriptorId :=
  ((ix.pending typeId).filter fun p => p.1 == nameId).map Prod.snd

/-- The entry of a key, which is empty if the key is new. -/
def tryEmplace (ix : TypeIndex) (typeId : TypeId) (nameId : NameId) : NameEntry :=
  (ix.entries typeId nameId).getD {}

/-- A candidate is buffered before the first sort. After it, the candidate goes to the
    end of the vector of its key, whose caches stay as they are. -/
def insertCandidate (ix : TypeIndex) (typeId : TypeId) (nameId : NameId)
    (descId : DescriptorId) : TypeIndex :=
  if ix.finalized then
    let entry := ix.tryEmplace typeId nameId
    { ix with entries := Function.update ix.entries typeId <|
        Function.update (ix.entries typeId) nameId <|
          some { entry with candidates := entry.candidates ++ [descId] } }
  else
    { ix with pending := Function.update ix.pending typeId <|
        ix.pending typeId ++ [(nameId, descId)] }

def updateSingleUnnamed (ix : TypeIndex) (typeId : TypeId) : TypeIndex :=
  { ix with singleUnnamed := Function.update ix.singleUnnamed typeId <|
      match ix.candidatesFor typeId kUnnamed with
      | some [descId] => some descId
      | _ => none }

/-! ## The candidates ever inserted -/

/-- All candidates that were inserted for a key, flushed or not. -/
def inserted (ix : TypeIndex) (typeId : TypeId) (nameId : NameId) : List DescriptorId :=
  (ix.candidatesFor typeId nameId).getD [] ++ ix.pendingFor typeId nameId

variable {priorityOf : DescriptorId → ℤ} {ix : TypeIndex} {typeId typeId' : TypeId}
    {nameId nameId' : NameId}
  {descId : DescriptorId}

theorem inserted_insertCandidate_self :
    ((ix.insertCandidate typeId nameId descId).inserted typeId nameId).Perm
      (descId :: ix.inserted typeId nameId) := by
  unfold insertCandidate inserted
  split_ifs
  · have hcandidates : (ix.tryEmplace typeId nameId).candidates =
        (ix.candidatesFor typeId nameId).getD [] := by
      unfold tryEmplace candidatesFor
      cases ix.entries typeId nameId <;> rfl
    simp only [candidatesFor, pendingFor, Function.update_self, Option.map_some, Option.getD_some]
    rw [hcandidates, candidatesFor, List.append_assoc]
    exact List.perm_middle
  · simp only [candidatesFor, pendingFor, Function.update_self, List.filter_append,
      List.filter_cons, List.filter_nil, List.map_append]
    simp only [BEq.rfl, if_true, List.map_cons, List.map_nil, ← List.append_assoc]
    exact List.perm_append_singleton _ _

theorem inserted_insertCandidate_of_ne (h : ¬(typeId' = typeId ∧ nameId' = nameId)) :
    (ix.insertCandidate typeId nameId descId).inserted typeId' nameId' =
      ix.inserted typeId' nameId' := by
  by_cases ht : typeId' = typeId
  · have hn : nameId' ≠ nameId := fun hn => h ⟨ht, hn⟩
    subst ht
    unfold insertCandidate inserted
    split_ifs
    · simp [candidatesFor, pendingFor, hn]
    · simp [candidatesFor, pendingFor, Ne.symm hn]
  · unfold insertCandidate inserted
    split_ifs <;> simp [candidatesFor, pendingFor, ht]

@[simp] theorem inserted_updateSingleUnnamed :
    (ix.updateSingleUnnamed typeId').inserted typeId nameId = ix.inserted typeId nameId := rfl

/-! ## The caches -/

open UniqueMax

/-- The caches of a key agree with the list `l`: the only unnamed candidate, the head
    with its ambiguity bit, and the first two candidates all point to the unique
    candidate of highest priority in `l`. -/
structure Agrees (priorityOf : DescriptorId → ℤ) (ix : TypeIndex) (typeId : TypeId)
    (nameId : NameId) (l : List DescriptorId) : Prop where
  single : nameId = kUnnamed → ∀ d, ix.singleUnnamed typeId = some d →
    IsUniqueMax priorityOf l d
  cached : ∀ e d, ix.entries typeId nameId = some e → e.head = some d →
    if e.ambiguous then Contested priorityOf l else IsUniqueMax priorityOf l d
  chosen : ∀ d, first priorityOf ((ix.candidatesFor typeId nameId).getD []) = some d →
    IsUniqueMax priorityOf l d
  unchosen : first priorityOf ((ix.candidatesFor typeId nameId).getD []) = none →
    l = [] ∨ Contested priorityOf l

theorem Agrees.of_perm {l l' : List DescriptorId} (h : ix.Agrees priorityOf typeId nameId l)
    (hl : l.Perm l') : ix.Agrees priorityOf typeId nameId l' where
  single hn d hd := (h.single hn d hd).of_mem_iff fun _ => hl.mem_iff
  cached e d he hd := by
    have := h.cached e d he hd
    split_ifs at this ⊢
    · exact this.of_mem_iff fun _ => hl.mem_iff
    · exact this.of_mem_iff fun _ => hl.mem_iff
  chosen d hd := (h.chosen d hd).of_mem_iff fun _ => hl.mem_iff
  unchosen hnone := by
    rcases h.unchosen hnone with rfl | hl'
    · exact .inl hl.nil_eq.symm
    · exact .inr (hl'.of_mem_iff fun _ => hl.mem_iff)

/-- Agreement depends on the priorities of the candidates only. -/
theorem Agrees.congr {priorityOf' : DescriptorId → ℤ} {l : List DescriptorId}
    (h : ix.Agrees priorityOf typeId nameId l) (hl : ∀ d ∈ l, priorityOf' d = priorityOf d)
    (hc : ∀ d ∈ (ix.candidatesFor typeId nameId).getD [], d ∈ l) :
    ix.Agrees priorityOf' typeId nameId l where
  single hn d hd := (h.single hn d hd).congr hl
  cached e d he hd := by
    have := h.cached e d he hd
    split_ifs at this ⊢
    · exact this.congr hl
    · exact this.congr hl
  chosen d hd := (h.chosen d (first_congr (fun d hd => hl d (hc d hd)) ▸ hd)).congr hl
  unchosen hd := by
    rcases h.unchosen (first_congr (fun d hd => hl d (hc d hd)) ▸ hd) with hnil | hcont
    · exact .inl hnil
    · exact .inr (hcont.congr hl)

/-- Refreshing the only unnamed candidate keeps the caches in agreement. -/
theorem Agrees.updateSingleUnnamed {l : List DescriptorId}
    (h : ix.Agrees priorityOf typeId nameId l) (typeId' : TypeId) :
    (ix.updateSingleUnnamed typeId').Agrees priorityOf typeId nameId l := by
  refine ⟨?_, h.cached, h.chosen, h.unchosen⟩
  rintro rfl d hd
  by_cases ht : typeId = typeId'
  · subst ht
    simp only [TypeIndex.updateSingleUnnamed, Function.update_self] at hd
    split at hd
    · next c hc =>
      obtain rfl : c = d := by simpa using hd
      refine h.chosen c ?_
      rw [hc]
      rfl
    · exact absurd hd nofun
  · simp only [TypeIndex.updateSingleUnnamed, Function.update_of_ne ht] at hd
    exact h.single rfl d hd

/-- A candidate that is inserted after the sort leaves the caches of other keys alone. -/
theorem Agrees.insertCandidate_of_ne {l : List DescriptorId}
    (h : ix.Agrees priorityOf typeId nameId l) (hfinalized : ix.finalized = true)
    (hne : ¬(typeId = typeId' ∧ nameId = nameId')) :
    (ix.insertCandidate typeId' nameId' descId).Agrees priorityOf typeId nameId l := by
  have hentries : (ix.insertCandidate typeId' nameId' descId).entries typeId nameId =
      ix.entries typeId nameId := by
    simp only [insertCandidate, hfinalized, if_true]
    by_cases ht : typeId = typeId'
    · subst ht
      have hn : nameId ≠ nameId' := fun hn => hne ⟨rfl, hn⟩
      simp [hn]
    · simp [ht]
  have hcandidates : (ix.insertCandidate typeId' nameId' descId).candidatesFor typeId nameId =
      ix.candidatesFor typeId nameId := by
    rw [candidatesFor, hentries, candidatesFor]
  have hsingle : (ix.insertCandidate typeId' nameId' descId).singleUnnamed =
      ix.singleUnnamed := by
    simp [insertCandidate, hfinalized]
  exact ⟨by rw [hsingle]; exact h.single, by rw [hentries]; exact h.cached,
    by rw [hcandidates]; exact h.chosen, by rw [hcandidates]; exact h.unchosen⟩

/-! ## The sort -/

section Sorting

variable (S : StdSort)

/-- The candidates of a key in the pending buffer of the type, once the buffer is sorted by name. -/
def groupFor (ix : TypeIndex) (typeId : TypeId) (nameId : NameId) : List DescriptorId :=
  ((S.sort (fun a b => decide (a.1 < b.1)) (ix.pending typeId)).filter
    fun p => p.1 == nameId).map Prod.snd

/-- The candidates of a key in the order in which a flush lines them up. -/
def gathered (ix : TypeIndex) (typeId : TypeId) (nameId : NameId) : List DescriptorId :=
  (ix.candidatesFor typeId nameId).getD [] ++ ix.groupFor S typeId nameId

/-- The candidate vector of a key after the flush of the pending buffer, if the key has
    an entry then. -/
def flushed (ix : TypeIndex) (typeId : TypeId) (nameId : NameId) : Option (List DescriptorId) :=
  match ix.candidatesFor typeId nameId, ix.groupFor S typeId nameId with
  | none, [] => none
  | candidates, waiting => some (candidates.getD [] ++ waiting)

variable (priorityOf : DescriptorId → ℤ)

/-- The entry of a key with the given candidates, sorted and with its caches. -/
def sortedEntry (candidates : List DescriptorId) : NameEntry :=
  let vec := S.sort (fun a b => decide (priorityOf b < priorityOf a)) candidates
  { candidates := vec
    head := vec.head?
    ambiguous := match vec with
      | a :: b :: _ => priorityOf a == priorityOf b
      | _ => false }

def sortAllCandidates (ix : TypeIndex) : TypeIndex where
  entries := fun typeId nameId => (ix.flushed S typeId nameId).map (sortedEntry S priorityOf)
  pending := fun _ => []
  singleUnnamed := fun typeId =>
    match (ix.flushed S typeId kUnnamed).map (sortedEntry S priorityOf) with
    | some { candidates := [descId], head := _, ambiguous := false } => some descId
    | _ => none
  finalized := true

variable {S} {priorityOf}

@[simp] theorem sortedEntry_nil : sortedEntry S priorityOf [] = {} := by
  simp [sortedEntry]

theorem groupFor_perm (S : StdSort) :
    (ix.groupFor S typeId nameId).Perm (ix.pendingFor typeId nameId) :=
  ((S.sort_perm _ _).filter _).map _

theorem flushed_getD : (ix.flushed S typeId nameId).getD [] = ix.gathered S typeId nameId := by
  unfold flushed gathered
  split <;> simp_all

theorem gathered_perm (S : StdSort) :
    (ix.gathered S typeId nameId).Perm (ix.inserted typeId nameId) :=
  (groupFor_perm S).append_left _

theorem sortedEntry_candidates_perm (S : StdSort) (priorityOf : DescriptorId → ℤ)
    (l : List DescriptorId) :
    (sortedEntry S priorityOf l).candidates.Perm l :=
  S.sort_perm (fun a b => decide (priorityOf b < priorityOf a)) l

theorem entries_sortAllCandidates :
    (ix.sortAllCandidates S priorityOf).entries typeId nameId =
      (ix.flushed S typeId nameId).map (sortedEntry S priorityOf) := rfl

theorem candidatesFor_sortAllCandidates_perm :
    (((ix.sortAllCandidates S priorityOf).candidatesFor typeId nameId).getD []).Perm
      (ix.inserted typeId nameId) := by
  refine List.Perm.trans ?_ (gathered_perm S)
  rw [← flushed_getD, candidatesFor, entries_sortAllCandidates]
  cases ix.flushed S typeId nameId with
  | none => rfl
  | some l => exact sortedEntry_candidates_perm S priorityOf l

theorem inserted_sortAllCandidates :
    ((ix.sortAllCandidates S priorityOf).inserted typeId nameId).Perm
      (ix.inserted typeId nameId) := by
  rw [inserted, show (ix.sortAllCandidates S priorityOf).pendingFor typeId nameId = [] from rfl,
    List.append_nil]
  exact candidatesFor_sortAllCandidates_perm

/-- The caches of a sorted entry hold the selection from its candidates. -/
theorem sortedEntry_first (S : StdSort) (priorityOf : DescriptorId → ℤ) (l : List DescriptorId) :
    first priorityOf (sortedEntry S priorityOf l).candidates =
      if (sortedEntry S priorityOf l).ambiguous then none
      else (sortedEntry S priorityOf l).head := by
  unfold sortedEntry
  rcases S.sort _ l with _ | ⟨a, _ | ⟨b, l⟩⟩ <;> simp [first]

theorem sortedEntry_pairwise (S : StdSort) (priorityOf : DescriptorId → ℤ) (l : List DescriptorId) :
    (sortedEntry S priorityOf l).candidates.Pairwise fun a b => priorityOf b ≤ priorityOf a :=
  S.sort_desc_pairwise priorityOf l

theorem first_sortedEntry_eq_some {l : List DescriptorId}
    (h : first priorityOf (sortedEntry S priorityOf l).candidates = some descId) :
    IsUniqueMax priorityOf l descId :=
  (first_eq_some (sortedEntry_pairwise S priorityOf l) h).of_mem_iff fun _ =>
    (sortedEntry_candidates_perm S priorityOf l).mem_iff

theorem first_sortedEntry_eq_none {l : List DescriptorId} (hnodup : l.Nodup)
    (h : first priorityOf (sortedEntry S priorityOf l).candidates = none) :
    l = [] ∨ Contested priorityOf l := by
  have hperm := sortedEntry_candidates_perm S priorityOf l
  rcases first_eq_none (sortedEntry_pairwise S priorityOf l) (hperm.nodup_iff.mpr hnodup)
    h with hnil | hcont
  · exact .inl (List.perm_nil.mp (hnil ▸ hperm.symm))
  · exact .inr (hcont.of_mem_iff fun _ => hperm.mem_iff)

theorem sortedEntry_cached {l : List DescriptorId} (hnodup : l.Nodup)
    (hhead : (sortedEntry S priorityOf l).head = some descId) :
    if (sortedEntry S priorityOf l).ambiguous then Contested priorityOf l
    else IsUniqueMax priorityOf l descId := by
  have hfirst := sortedEntry_first S priorityOf l
  split_ifs with hamb
  · rw [if_pos hamb] at hfirst
    refine (first_sortedEntry_eq_none hnodup hfirst).resolve_left ?_
    rintro rfl
    simp [sortedEntry] at hhead
  · rw [if_neg hamb, hhead] at hfirst
    exact first_sortedEntry_eq_some hfirst

/-- After a sort, the caches of every key agree with the candidates inserted for it. -/
theorem sortAllCandidates_agrees (hnodup : (ix.inserted typeId nameId).Nodup) :
    (ix.sortAllCandidates S priorityOf).Agrees priorityOf typeId nameId
      (ix.inserted typeId nameId) := by
  have hentry : (ix.sortAllCandidates S priorityOf).entries typeId nameId =
      (ix.flushed S typeId nameId).map (sortedEntry S priorityOf) := rfl
  refine Agrees.of_perm ?_ (gathered_perm S)
  rw [← (gathered_perm S).nodup_iff, ← flushed_getD] at hnodup
  rw [← flushed_getD]
  -- Without an entry there are no candidates; with one, its list is the sorted one.
  cases hflushed : ix.flushed S typeId nameId with
  | none =>
    rw [hflushed, Option.map_none] at hentry
    refine ⟨?_, by simp [hentry], by simp [candidatesFor, hentry, first], fun _ => .inl rfl⟩
    rintro rfl d hd
    simp [sortAllCandidates, hflushed] at hd
  | some l =>
    rw [hflushed, Option.getD_some] at hnodup
    rw [hflushed, Option.map_some] at hentry
    have hcandidates : ((ix.sortAllCandidates S priorityOf).candidatesFor typeId nameId).getD [] =
        (sortedEntry S priorityOf l).candidates := by
      rw [candidatesFor, hentry]
      rfl
    refine ⟨?_, ?_, ?_, ?_⟩
    · rintro rfl d hd
      simp only [sortAllCandidates, hflushed, Option.map_some] at hd
      split at hd
      · next c _ hc =>
        obtain rfl : c = d := by simpa using hd
        have hfirst : first priorityOf (sortedEntry S priorityOf l).candidates = some c := by
          rw [Option.some.inj hc]
          rfl
        exact first_sortedEntry_eq_some hfirst
      · exact absurd hd (by rintro ⟨⟩)
    · intro e d he hhead
      obtain rfl : sortedEntry S priorityOf l = e := by simpa [hentry] using he
      exact sortedEntry_cached hnodup hhead
    · intro d hd
      exact first_sortedEntry_eq_some (hcandidates ▸ hd)
    · intro hd
      exact first_sortedEntry_eq_none hnodup (hcandidates ▸ hd)

theorem sortedEntry_congr {priorityOf' : DescriptorId → ℤ} {l : List DescriptorId}
    (h : ∀ d ∈ l, priorityOf' d = priorityOf d) :
    sortedEntry S priorityOf' l = sortedEntry S priorityOf l := by
  have hsort : S.sort (fun a b => decide (priorityOf' b < priorityOf' a)) l =
      S.sort (fun a b => decide (priorityOf b < priorityOf a)) l :=
    S.sort_congr fun a ha b hb => by rw [h a ha, h b hb]
  have hmem : ∀ d ∈ S.sort (fun a b => decide (priorityOf b < priorityOf a)) l,
      priorityOf' d = priorityOf d := fun d hd => h d (S.mem_sort.mp hd)
  unfold sortedEntry
  rw [hsort]
  revert hmem
  rcases S.sort _ l with _ | ⟨a, _ | ⟨b, rest⟩⟩ <;> intro hmem
  · rfl
  · rfl
  · simp [hmem a (by simp), hmem b (by simp)]

/-- The sort depends on the priorities of the inserted candidates only. -/
theorem sortAllCandidates_congr {priorityOf' : DescriptorId → ℤ}
    (h : ∀ typeId nameId, ∀ d ∈ ix.inserted typeId nameId, priorityOf' d = priorityOf d) :
    ix.sortAllCandidates S priorityOf' = ix.sortAllCandidates S priorityOf := by
  have hentry : ∀ typeId nameId, (ix.flushed S typeId nameId).map (sortedEntry S priorityOf') =
      (ix.flushed S typeId nameId).map (sortedEntry S priorityOf) := by
    intro typeId nameId
    have hl : ∀ d ∈ (ix.flushed S typeId nameId).getD [], priorityOf' d = priorityOf d := by
      intro d hd
      rw [flushed_getD, (gathered_perm S).mem_iff] at hd
      exact h typeId nameId d hd
    cases hflushed : ix.flushed S typeId nameId with
    | none => rfl
    | some l =>
      rw [hflushed, Option.getD_some] at hl
      rw [Option.map_some, Option.map_some, sortedEntry_congr hl]
  simp only [sortAllCandidates, hentry]

/-! ### A late candidate -/

/-- The entry of a key with a late candidate: the caches are those before it. -/
def lateEntry (S : StdSort) (priorityOf : DescriptorId → ℤ) (l : List DescriptorId)
    (descId : DescriptorId) :
    NameEntry :=
  { sortedEntry S priorityOf l with
    candidates := (sortedEntry S priorityOf l).candidates ++ [descId] }

theorem entries_insertCandidate_sortAllCandidates :
    ((ix.sortAllCandidates S priorityOf).insertCandidate typeId nameId descId).entries
    typeId nameId =
      some (lateEntry S priorityOf (ix.gathered S typeId nameId) descId) := by
  have hentry : (ix.sortAllCandidates S priorityOf).tryEmplace typeId nameId =
      sortedEntry S priorityOf (ix.gathered S typeId nameId) := by
    rw [tryEmplace, entries_sortAllCandidates, ← flushed_getD]
    cases ix.flushed S typeId nameId with
    | none => exact sortedEntry_nil.symm
    | some l => rfl
  simp only [insertCandidate, show (ix.sortAllCandidates S priorityOf).finalized = true from rfl,
    if_true, Function.update_self, hentry, lateEntry]

theorem sortedEntry_candidates_ne_nil (S : StdSort) (priorityOf : DescriptorId → ℤ)
    {l : List DescriptorId} (hl : l ≠ []) :
    ∃ x rest, (sortedEntry S priorityOf l).candidates = x :: rest := by
  have hperm := sortedEntry_candidates_perm S priorityOf l
  cases hc : (sortedEntry S priorityOf l).candidates with
  | nil => exact absurd (List.perm_nil.mp (hc ▸ hperm.symm)) hl
  | cons x rest => exact ⟨x, rest, rfl⟩

/-- The head of a sorted entry that is not empty, and what the caches say of it. -/
theorem exists_sortedEntry_head (S : StdSort) (priorityOf : DescriptorId → ℤ)
    {l : List DescriptorId} (hl : l ≠ []) (hnodup : l.Nodup) :
    ∃ x, (sortedEntry S priorityOf l).head = some x ∧
      if (sortedEntry S priorityOf l).ambiguous then Contested priorityOf l
      else IsUniqueMax priorityOf l x := by
  obtain ⟨x, rest, hc⟩ := sortedEntry_candidates_ne_nil S priorityOf hl
  have hhead : (sortedEntry S priorityOf l).head = some x :=
    congrArg List.head? hc
  exact ⟨x, hhead, sortedEntry_cached hnodup hhead⟩

/-- The selection among candidates that outweigh a late one is the selection with it. -/
theorem first_lateEntry {l : List DescriptorId} (hl : l ≠ [])
    (hweigh : Outweighs priorityOf l (priorityOf descId)) :
    first priorityOf (lateEntry S priorityOf l descId).candidates =
      first priorityOf (sortedEntry S priorityOf l).candidates := by
  obtain ⟨x, rest, hc⟩ := sortedEntry_candidates_ne_nil S priorityOf hl
  rw [lateEntry, hc]
  cases rest with
  | cons y rest => exact first_concat_of_two x y rest descId
  | nil =>
    have hx : IsUniqueMax priorityOf l x := first_sortedEntry_eq_some (by rw [hc]; rfl)
    have hne : priorityOf x ≠ priorityOf descId := (hweigh.lt_of_isUniqueMax hx).ne'
    simp [first, hne]

/-- The caches with a late candidate, for the others in the order of the flush. -/
theorem insertCandidate_gathered_agrees {l : List DescriptorId}
    (hgathered : ix.gathered S typeId kUnnamed = l) (hnodup : l.Nodup)
    (hweigh : l = [] ∨ Outweighs priorityOf l (priorityOf descId)) :
    (((ix.sortAllCandidates S priorityOf).insertCandidate typeId kUnnamed
    descId).updateSingleUnnamed
      typeId).Agrees priorityOf typeId kUnnamed (l ++ [descId]) := by
  have hentry : ((ix.sortAllCandidates S priorityOf).insertCandidate typeId kUnnamed descId).entries
      typeId kUnnamed = some (lateEntry S priorityOf l descId) :=
    hgathered ▸ entries_insertCandidate_sortAllCandidates
  set ix' := (ix.sortAllCandidates S priorityOf).insertCandidate typeId kUnnamed descId
  have hcandidates : ix'.candidatesFor typeId kUnnamed =
      some (lateEntry S priorityOf l descId).candidates := by
    rw [candidatesFor, hentry]
    rfl
  -- The only unnamed candidate is refreshed from the candidates, so their selection decides.
  have hsingle : ∀ d, (ix'.updateSingleUnnamed typeId).singleUnnamed typeId = some d →
      first priorityOf (lateEntry S priorityOf l descId).candidates = some d := by
    intro d hd
    simp only [updateSingleUnnamed, Function.update_self, hcandidates] at hd
    split at hd
    · next c hc =>
      rw [Option.some.inj hc]
      exact hd
    · exact absurd hd nofun
  have hchosen : ∀ d, first priorityOf (lateEntry S priorityOf l descId).candidates = some d →
      IsUniqueMax priorityOf (l ++ [descId]) d := by
    intro d hd
    rcases hweigh with rfl | hweigh
    · obtain rfl : descId = d := by simpa [lateEntry, sortedEntry, first] using hd
      exact ⟨by simp, by simp⟩
    · have hl : l ≠ [] := by
        rintro rfl
        simp [Outweighs] at hweigh
      rw [first_lateEntry hl hweigh] at hd
      have hmax := first_sortedEntry_eq_some hd
      exact hmax.concat (hweigh.lt_of_isUniqueMax hmax)
  refine ⟨fun _ d hd => hchosen d (hsingle d hd), fun e d he hd => ?_, fun d hd => hchosen d ?_,
    fun hd => .inr ?_⟩
  · obtain rfl : lateEntry S priorityOf l descId = e := Option.some.inj (hentry.symm.trans he)
    rcases hweigh with rfl | hweigh
    · simp [lateEntry, sortedEntry] at hd
    · have hcached := sortedEntry_cached hnodup hd
      change if (sortedEntry S priorityOf l).ambiguous then _ else _
      split_ifs at hcached with hamb
      · rw [if_pos hamb]
        exact hcached.concat hweigh
      · rw [if_neg hamb]
        exact hcached.concat (hweigh.lt_of_isUniqueMax hcached)
  · rw [show (ix'.updateSingleUnnamed typeId).candidatesFor typeId kUnnamed = _ from hcandidates]
      at hd
    exact hd
  · rw [show (ix'.updateSingleUnnamed typeId).candidatesFor typeId kUnnamed = _ from hcandidates,
      Option.getD_some] at hd
    rcases hweigh with rfl | hweigh
    · simp [lateEntry, sortedEntry, first] at hd
    · have hl : l ≠ [] := by
        rintro rfl
        simp [Outweighs] at hweigh
      rw [first_lateEntry hl hweigh] at hd
      exact ((first_sortedEntry_eq_none hnodup hd).resolve_left hl).concat hweigh

/-- If the candidates of a key outweigh a late one or there are none, the caches agree with
    all of them. -/
theorem insertCandidate_agrees (hnodup : (ix.inserted typeId kUnnamed).Nodup)
    (hweigh : ix.inserted typeId kUnnamed = [] ∨
      Outweighs priorityOf (ix.inserted typeId kUnnamed) (priorityOf descId)) :
    (((ix.sortAllCandidates S priorityOf).insertCandidate typeId kUnnamed
    descId).updateSingleUnnamed
      typeId).Agrees priorityOf typeId kUnnamed (ix.inserted typeId kUnnamed ++ [descId]) := by
  have hperm : (ix.gathered S typeId kUnnamed).Perm (ix.inserted typeId kUnnamed) :=
    gathered_perm S
  have hgathered : ix.gathered S typeId kUnnamed = [] ∨
      Outweighs priorityOf (ix.gathered S typeId kUnnamed) (priorityOf descId) := by
    rcases hweigh with hnil | hweigh
    · exact .inl (List.perm_nil.mp (hnil ▸ hperm))
    · exact .inr (hweigh.of_mem_iff fun _ => hperm.symm.mem_iff)
  exact (insertCandidate_gathered_agrees rfl (hperm.nodup_iff.mpr hnodup) hgathered).of_perm
    (hperm.append_right _)

end Sorting

end TypeIndex

end Ctorium
