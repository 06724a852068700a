import Ctorium.Registry.Context

/-!
# The descriptors of a key are its candidates

Whatever calls a context has seen, failed starts included, the candidates that the
type index holds for a key are exactly the descriptors of the table with this key
(`Registry.Indexed`). The invariant also says that the interning tables are valid and
that the types of all descriptors are interned.
-/

namespace Ctorium

open Attempt

/-- The identifiers of the descriptors with the given key in a table. -/
def keyIds (ds : List Descriptor) (typeId : TypeId) (nameId : NameId) : List DescriptorId :=
  (List.range ds.length).filter fun id =>
    ds[id]?.any fun d => d.exposedType == typeId && d.name == nameId

theorem mem_keyIds {ds : List Descriptor} {typeId : TypeId} {nameId : NameId} {id : DescriptorId} :
    id ∈ keyIds ds typeId nameId ↔
      ∃ d, ds[id]? = some d ∧ d.exposedType = typeId ∧ d.name = nameId := by
  simp only [keyIds, List.mem_filter, List.mem_range, Option.any_eq_true, Bool.and_eq_true,
    beq_iff_eq, and_iff_right_iff_imp]
  rintro ⟨d, hd, -⟩
  exact (List.getElem?_eq_some_iff.mp hd).1

theorem keyIds_nodup (ds : List Descriptor) (typeId : TypeId) (nameId : NameId) :
    (keyIds ds typeId nameId).Nodup := List.nodup_range.filter _

/-- A new descriptor is a candidate of its own key only. -/
theorem keyIds_append (ds : List Descriptor) (d : Descriptor) (typeId : TypeId) (nameId : NameId) :
    keyIds (ds ++ [d]) typeId nameId = keyIds ds typeId nameId ++
      if d.exposedType = typeId ∧ d.name = nameId then [ds.length] else [] := by
  unfold keyIds
  rw [List.length_append, List.length_singleton, List.range_succ, List.filter_append]
  congr 1
  · refine List.filter_congr fun id hid => ?_
    rw [List.getElem?_append_left (List.mem_range.mp hid)]
  · by_cases h : d.exposedType = typeId ∧ d.name = nameId
    · simp [h]
    · rw [if_neg h, List.filter_eq_nil_iff]
      simpa using fun h₁ h₂ => h ⟨h₁, h₂⟩

/-- Changes to a descriptor that keep its key keep the candidates. -/
theorem keyIds_congr {ds ds' : List Descriptor} {typeId : TypeId} {nameId : NameId}
    (h : ds'.map (fun d => (d.exposedType, d.name)) = ds.map fun d => (d.exposedType, d.name)) :
    keyIds ds' typeId nameId = keyIds ds typeId nameId := by
  have hlength : ds'.length = ds.length := by simpa using congrArg List.length h
  unfold keyIds
  rw [hlength]
  refine List.filter_congr fun id _ => ?_
  have hget := congrArg (fun l => l[id]?) h
  simp only [List.getElem?_map] at hget
  cases hd : ds[id]? <;> cases hd' : ds'[id]? <;> simp_all

/-- The tables of a registry fit together. -/
structure IndexedTables (ds : List Descriptor) (ti : TypeInterning) (ni : NameInterning)
    (ix : TypeIndex) : Prop where
  types : ti.Valid
  names : ni.Valid
  exposed : ∀ d ∈ ds, d.exposedType < ti.size
  inserted : ∀ typeId nameId, (ix.inserted typeId nameId).Perm (keyIds ds typeId nameId)

namespace Registry

/-- The type index holds exactly the descriptors of the table. -/
abbrev Indexed (r : Registry) : Prop :=
  IndexedTables r.descriptors r.typeInterning r.nameInterning r.typeIndex

variable {r : Registry} {d : Descriptor} {type : CppType}

theorem indexed_empty (S : StdSort) : ({ stdSort := S } : Registry).Indexed where
  types := ⟨List.nodup_nil, fun _ => rfl, nofun⟩
  names := ⟨by simp, rfl⟩
  exposed := nofun
  inserted _ _ := List.Perm.refl _

/-- A name interned on the way of a lookup leaves the index as it is. -/
theorem Indexed.internName (h : r.Indexed) (name : String) :
    (r.withNames (r.nameInterning.intern name).2).Indexed :=
  ⟨h.types, h.names.intern name, h.exposed, h.inserted⟩

theorem Indexed.internType (h : r.Indexed) (type : CppType) :
    (r.withTypes (r.typeInterning.internByName type).2).Indexed :=
  ⟨h.types.internByName type, h.names,
    fun d hd => (h.exposed d hd).trans_le (TypeInterning.size_le_internByName h.types type),
    h.inserted⟩

/-- The descriptor list and the index grow by the same descriptor. -/
theorem Indexed.appendCandidate (h : r.Indexed) (hd : d.exposedType < r.typeInterning.size) :
    (r.appendCandidate d).Indexed := by
  refine ⟨h.types, h.names, ?_, fun typeId nameId => ?_⟩
  · intro d' hd'
    rcases List.mem_append.mp hd' with hd' | hd'
    · exact h.exposed d' hd'
    · rw [List.mem_singleton.mp hd']
      exact hd
  · rw [Registry.appendCandidate, keyIds_append]
    by_cases hkey : d.exposedType = typeId ∧ d.name = nameId
    · obtain ⟨rfl, rfl⟩ := hkey
      rw [if_pos ⟨rfl, rfl⟩]
      refine TypeIndex.inserted_insertCandidate_self.trans ?_
      exact ((h.inserted _ _).cons _).trans (List.perm_append_singleton _ _).symm
    · rw [if_neg hkey, List.append_nil, TypeIndex.inserted_insertCandidate_of_ne]
      · exact h.inserted _ _
      · rintro ⟨rfl, rfl⟩
        exact hkey ⟨rfl, rfl⟩

/-- Sorting orders the buckets and moves nothing between them. -/
theorem Indexed.sortAllCandidates (h : r.Indexed) : r.sortAllCandidates.Indexed :=
  ⟨h.types, h.names, h.exposed, fun typeId nameId =>
    TypeIndex.inserted_sortAllCandidates.trans (h.inserted typeId nameId)⟩

theorem Indexed.updateSingleUnnamed (h : r.Indexed) (typeId : TypeId) :
    IndexedTables r.descriptors r.typeInterning r.nameInterning
      (r.typeIndex.updateSingleUnnamed typeId) :=
  ⟨h.types, h.names, h.exposed, h.inserted⟩

/-- Publishing is appending, with the bucket kept in order. -/
theorem Indexed.publishCandidate (h : r.Indexed) (hd : d.exposedType < r.typeInterning.size) :
    (r.publishCandidate d).Indexed :=
  (h.appendCandidate hd).sortAllCandidates.updateSingleUnnamed _

/-- A change of the descriptors that keeps their keys. -/
theorem Indexed.mapDescriptors (h : r.Indexed) {ds : List Descriptor}
    (hds : ds.map (fun d => (d.exposedType, d.name)) =
      r.descriptors.map fun d => (d.exposedType, d.name)) :
    IndexedTables ds r.typeInterning r.nameInterning r.typeIndex := by
  refine ⟨h.types, h.names, fun d hd => ?_, fun typeId nameId => ?_⟩
  · have hmem : (d.exposedType, d.name) ∈ r.descriptors.map fun d => (d.exposedType, d.name) :=
      hds ▸ List.mem_map_of_mem hd
    obtain ⟨d', hd', heq⟩ := List.mem_map.mp hmem
    rw [← show d'.exposedType = d.exposedType from congrArg Prod.fst heq]
    exact h.exposed d' hd'
  · rw [keyIds_congr hds]
    exact h.inserted typeId nameId

/-! ## The phases of the start -/

/-- A change of one descriptor keeps what it does not touch. -/
theorem map_modify_of_eq {α : Type*} {g : Descriptor → α} {f : Descriptor → Descriptor}
    (hf : ∀ d, g (f d) = g d) (ds : List Descriptor) (id : DescriptorId) :
    (ds.modify id f).map g = ds.map g := by
  refine List.ext_getElem? fun i => ?_
  rw [List.getElem?_map, List.getElem?_map, List.getElem?_modify]
  cases ds[i]? with
  | none => rfl
  | some d =>
    simp only [Option.map_eq_map, Option.map_some]
    split_ifs <;> simp [hf]

/-- The assignment of session slots keeps everything else. -/
theorem map_numberSessions {α : Type*} {g : Descriptor → α}
    (hg : ∀ d slot, g { d with sessionSlot := slot } = g d) (slot : SessionSlot)
    (ds : List Descriptor) : (numberSessions slot ds).map g = ds.map g := by
  induction ds generalizing slot with
  | nil => rfl
  | cons d ds ih =>
    rw [numberSessions]
    split_ifs <;> simp [ih, hg]

/-- Linking keeps the type and the name that a descriptor is indexed under. -/
theorem Indexed.modifyDescriptor (h : r.Indexed) (id : DescriptorId) {f : Descriptor → Descriptor}
    (hf : ∀ d, ((f d).exposedType, (f d).name) = (d.exposedType, d.name)) :
    (r.modifyDescriptor id f).Indexed :=
  h.mapDescriptors (map_modify_of_eq hf _ _)

/-- A contribution is new, a repeated one or an error; only a new one is indexed. -/
theorem Indexed.mergeContribution {s : StartState} (h : s.registry.Indexed)
    (cd : ContributedDescriptor) : (mergeContribution s cd).state.registry.Indexed := by
  unfold Registry.mergeContribution
  split
  · -- A new descriptor, after its types and its name have been interned.
    have htypes := h.types.internByName cd.exposedType
    have hintern : (s.registry.internContribution cd).Indexed :=
      ⟨htypes.internByName cd.concreteType, h.names.intern cd.beanName, fun d hd =>
        (h.exposed d hd).trans_le ((TypeInterning.size_le_internByName h.types _).trans
          (TypeInterning.size_le_internByName htypes _)), h.inserted⟩
    refine hintern.appendCandidate ?_
    exact (TypeInterning.internByName_lt h.types _).trans_le
      (TypeInterning.size_le_internByName htypes _)
  · split
    · split <;> exact h
    · exact h

/-- A pending binding is indexed under the type and name it was bound with. -/
theorem Indexed.mergePendingSingleton {s : StartState} (h : s.registry.Indexed)
    (pb : PendingRuntimeSingleton) : (mergePendingSingleton s pb).state.registry.Indexed := by
  have hintern := h.internType pb.type
  simp only [Registry.mergePendingSingleton]
  split
  · exact hintern
  · exact hintern.appendCandidate (TypeInterning.internByName_lt h.types _)

theorem Indexed.linkFactory {s : StartState} (h : s.registry.Indexed)
    (link : DescriptorId × Identity) : (linkFactory s link).state.registry.Indexed := by
  unfold Registry.linkFactory
  split
  · exact h
  · exact h.modifyDescriptor _ fun _ => rfl

theorem Indexed.linkAlias {s : StartState} (h : s.registry.Indexed)
    (link : DescriptorId × Identity) : (linkAlias s link).state.registry.Indexed := by
  unfold Registry.linkAlias
  split
  · exact h
  · exact h.modifyDescriptor _ fun _ => rfl

/-- The context is a bean of its own and indexed like one. -/
theorem Indexed.registerContextBean (h : r.Indexed) (ctx : Addr) :
    (r.registerContextBean ctx).Indexed := by
  have hlt := TypeInterning.internByName_lt h.types beanContextType
  exact ((h.internType beanContextType).appendCandidate
    (d := contextDescriptor _) hlt).updateSingleUnnamed _

theorem Indexed.finishStart {s : StartState} (h : s.registry.Indexed) (ctx : Addr) :
    (finishStart s ctx).registry.Indexed := by
  have hslots := (h.registerContextBean ctx).mapDescriptors
    (map_numberSessions (fun _ _ => rfl) 0 (s.registry.registerContextBean ctx).descriptors)
  exact ⟨hslots.types.freeze, hslots.names, hslots.exposed, hslots.inserted⟩

theorem Indexed.mergeAll {s : StartState} (h : s.registry.Indexed) :
    (mergeAll s).state.registry.Indexed := by
  let P := fun s : StartState => s.registry.Indexed
  refine andThen_invariant (P := P)
    (forEach_invariant (P := P) (fun s cd _ hs => hs.mergeContribution cd) h) fun s hs => ?_
  exact forEach_invariant (P := P) (fun s pb _ hs => hs.mergePendingSingleton pb) hs

theorem Indexed.linkAll {s : StartState} (h : s.registry.Indexed) :
    (linkAll s).state.registry.Indexed := by
  let P := fun s : StartState => s.registry.Indexed
  refine andThen_invariant (P := P)
    (forEach_invariant (P := P) (fun s link _ hs => hs.linkFactory link) h) fun s hs => ?_
  exact forEach_invariant (P := P) (fun s link _ hs => hs.linkAlias link) hs

/-- The first two phases of start() keep the index. -/
theorem Indexed.mergeAndLink {s : StartState} (h : s.registry.Indexed) :
    (mergeAndLink s).state.registry.Indexed :=
  andThen_invariant (P := fun s : StartState => s.registry.Indexed) h.mergeAll
    fun _ hs => hs.linkAll

theorem Indexed.merge {s : StartState} (h : s.registry.Indexed) (ctx : Addr) :
    (merge s ctx).state.registry.Indexed := by
  let P := fun s : StartState => s.registry.Indexed
  refine andThen_invariant (P := P) h.mergeAndLink fun s hs => ?_
  refine andThen_invariant (P := P) (Indexed.sortAllCandidates hs) fun s hs => ?_
  refine andThen_invariant (P := P) hs fun s hs => ?_
  exact hs.finishStart ctx

/-- start() keeps the index, also when it fails half way. -/
theorem Indexed.start (h : r.Indexed) (ctx : Addr) : (r.start ctx).state.Indexed := by
  unfold Registry.start
  split_ifs
  · exact h
  · split
    · exact h
    · exact Indexed.merge (s := { registry := r }) h ctx

/-! ## Binding -/

/-- A type adopted for a binding has an id of the table. -/
theorem Indexed.adoptType (h : r.Indexed) (type : CppType) :
    (r.withTypes (r.adoptType type).2).Indexed ∧
      (r.adoptType type).1 < (r.adoptType type).2.size := by
  unfold Registry.adoptType
  split
  · next typeId hid => exact ⟨h, h.types.found _ _ hid⟩
  · exact ⟨h.internType type, TypeInterning.internByName_lt h.types type⟩

theorem Indexed.sessionType (h : r.Indexed) (type : CppType) :
    (r.withTypes (r.sessionType type).2).Indexed ∧
      (r.sessionType type).1 < (r.sessionType type).2.size := by
  unfold Registry.sessionType
  split_ifs
  · exact h.adoptType type
  · exact ⟨h.internType type, TypeInterning.internByName_lt h.types type⟩

theorem Indexed.internSession (h : r.Indexed) (type : CppType) (name : String) :
    (r.internSession type name).Indexed :=
  ⟨(h.sessionType type).1.types, h.names.intern name, (h.sessionType type).1.exposed, h.inserted⟩

/-- A binding is refused, queued, or indexed at once on a started registry. -/
theorem Indexed.bindSingleton (h : r.Indexed) (type : CppType) (nameId : NameId) (priority : ℤ)
    (object : Addr) : (r.bindSingleton type nameId priority object).state.Indexed := by
  unfold Registry.bindSingleton
  split_ifs
  · exact h
  · obtain ⟨hadopt, hlt⟩ := h.adoptType type
    simp only [bindSingletonStarted]
    split_ifs
    · exact hadopt
    · have hstored : ((r.withTypes (r.adoptType type).2).growSingletons object).Indexed := hadopt
      exact hstored.publishCandidate hlt
  · unfold bindSingletonPending
    split_ifs <;> exact h

/-- A session descriptor is one that is there already or a new, indexed one. -/
theorem Indexed.sessionDescriptor (h : r.Indexed) {typeId : TypeId}
    (hlt : typeId < r.typeInterning.size) (nameId : NameId) (priority : ℤ) :
    (r.sessionDescriptor typeId nameId priority).2.Indexed := by
  unfold Registry.sessionDescriptor
  split
  · exact h
  · simp only [appendSession]
    split_ifs
    · have hcount : r.nextSessionSlot.Indexed := h
      exact hcount.publishCandidate hlt
    · exact h.appendCandidate hlt

end Registry

namespace BeanContext

variable {b : BeanContext}

/-- Where the object goes is the scope's affair: the root is not written. -/
theorem placeSession_core (scope : ScopeId) (descId : DescriptorId) (object : Addr) :
    (b.placeSession scope descId object).state.core = b.core := by
  simp only [placeSession]
  split_ifs <;> rfl

/-- A bound session interns its name and type, then adds at most one descriptor. -/
theorem bindSession_indexed (h : b.core.Indexed) (scope : ScopeId) (type : CppType)
    (name : String) (priority : ℤ) (object : Addr) :
    (b.bindSession scope type name priority object).state.core.Indexed := by
  simp only [bindSession]
  split_ifs
  · exact h
  · exact h.internSession type name
  · rw [placeSession_core]
    exact (h.internSession type name).sessionDescriptor (h.sessionType type).2 _ _

theorem defaultNamed_indexed (h : b.core.Indexed) (scope : Option ScopeId) (type : CppType)
    (name : String) : (b.defaultNamed scope type name).state.core.Indexed := by
  simp only [defaultNamed]
  split_ifs
  · exact h
  · exact h
  · split
    · exact h
    · split <;> exact h.internName name

theorem clearDefaultNamed_indexed (h : b.core.Indexed) (scope : Option ScopeId)
    (type : CppType) : (b.clearDefaultNamed scope type).state.core.Indexed := by
  simp only [clearDefaultNamed]
  split_ifs
  · exact h
  · split
    · exact h
    · split
      · exact h
      · split_ifs <;> exact h

theorem startScope_core (scope : ScopeId) : (b.startScope scope).state.core = b.core := by
  simp only [startScope]
  split_ifs
  · rfl
  · split <;> rfl

theorem stopScope_core (scope : ScopeId) : (b.stopScope scope).core = b.core := by
  simp only [stopScope]
  split_ifs <;> rfl

theorem restartScope_core (scope : ScopeId) : (b.restartScope scope).state.core = b.core := by
  simp only [restartScope, startScope_core]
  split_ifs
  · rfl
  · exact stopScope_core scope

/-- Every call keeps the index and the descriptor table in step. -/
theorem exec_indexed (h : b.core.Indexed) (call : Call) : (b.exec call).state.core.Indexed := by
  cases call with
  | discover cds =>
    simp only [exec, discover, Registry.submitContribution]
    split_ifs <;> exact h
  | bindSingleton type name priority object =>
    exact (Registry.Indexed.internName h name).bindSingleton _ _ _ _
  | bindSession scope type name priority object => exact bindSession_indexed h _ _ _ _ _
  | defaultNamed scope type name => exact defaultNamed_indexed h _ _ _
  | clearDefaultNamed scope type => exact clearDefaultNamed_indexed h _ _
  | start => exact Registry.Indexed.start h _
  | startScope scope => rwa [exec, startScope_core]
  | stopScope scope => rwa [exec, Attempt.ok_state, stopScope_core]
  | restartScope scope => rwa [exec, restartScope_core]

/-- What every call preserves holds after a whole run of them. -/
theorem execAll_invariant {P : BeanContext → Prop}
    (hstep : ∀ b call, P b → P (b.exec call).state) (hb : P b) (calls : List Call) :
    P (b.execAll calls) := by
  induction calls generalizing b with
  | nil => exact hb
  | cons call calls ih => exact ih (hstep b call hb)

/-- The index and the descriptor list agree after any calls. -/
theorem execAll_indexed (h : b.core.Indexed) (calls : List Call) :
    (b.execAll calls).core.Indexed :=
  execAll_invariant (P := fun b => b.core.Indexed) (fun _ call hb => exec_indexed hb call) h calls

end BeanContext

end Ctorium
