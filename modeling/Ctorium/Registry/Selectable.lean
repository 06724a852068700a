import Ctorium.Registry.Choice
import Ctorium.Registry.Deferred
import Ctorium.Registry.Families

/-!
# Orphans are never selected

A start that fails after phase 1 leaves aliases without a primary in the table, and a later
start makes and links a new alias for each of them. Such an orphan stays a candidate for good,
but the new alias has its key and its priority, so no resolution selects it.

* `Kin`: the table consists of families and orphans, and once a start has merged the
  contributions, no cache of the index leads to an orphan.
* `exec_kin`, `kin_start`: every call keeps this, whatever failed starts have left.
* `Kin.linkedAt`: so a resolution selects a descriptor of a family.
-/

namespace Ctorium

open Attempt UniqueMax InjectionPoints

namespace Registry

/-! ## Orphans -/

/-- The descriptor is there, and is no orphan. -/
def LinkedAt (r : Registry) (id : DescriptorId) : Prop :=
  ∃ d, r.descriptors[id]? = some d ∧ ¬IsOrphan d

/-- Every orphan has a rival of its key and priority. -/
def Covered (r : Registry) : Prop :=
  ∀ (id : DescriptorId) (d : Descriptor), r.descriptors[id]? = some d → IsOrphan d →
    ∃ (id' : DescriptorId) (d' : Descriptor), id' ≠ id ∧ r.descriptors[id']? = some d' ∧
      d'.exposedType = d.exposedType ∧ d'.name = d.name ∧ d'.priority = d.priority

/-- The caches of the index lead to no orphan. -/
structure HeadsLinked (r : Registry) : Prop where
  single : ∀ typeId id, r.typeIndex.singleUnnamed typeId = some id → r.LinkedAt id
  cached : ∀ typeId nameId e id, r.typeIndex.entries typeId nameId = some e →
    e.head = some id → e.ambiguous = false → r.LinkedAt id
  uncached : ∀ typeId nameId e, r.typeIndex.entries typeId nameId = some e → e.head = none →
    ∀ id ∈ e.candidates, r.LinkedAt id

/-- No candidate waits in the pending buffer. -/
def Flushed (r : Registry) : Prop :=
  r.typeIndex.finalized = true ∧ ∀ typeId, r.typeIndex.pending typeId = []

variable {H : IdentityHashes} {r r' : Registry} {d : Descriptor} {id : DescriptorId}
  {typeId : TypeId} {nameId : NameId}

theorem mem_of_selectFallback {priorityOf : DescriptorId → ℤ} {l : List DescriptorId}
    (h : BeanContext.selectFallback priorityOf l = .ok id) : id ∈ l := by
  rcases l with _ | ⟨a, _ | ⟨b, rest⟩⟩
  · cases h
  · obtain rfl := Except.ok.inj h
    exact List.mem_cons_self
  · simp only [BeanContext.selectFallback] at h
    split_ifs at h
    obtain rfl := Except.ok.inj h
    exact List.mem_cons_self

/-- A selection from such caches is no orphan. -/
theorem HeadsLinked.linkedAt (h : r.HeadsLinked)
    (hselect : BeanContext.selectKey r typeId nameId = .ok id) : r.LinkedAt id := by
  unfold BeanContext.selectKey at hselect
  split at hselect
  · next id' hsingle =>
    obtain rfl := Except.ok.inj hselect
    split_ifs at hsingle
    exact h.single typeId id' hsingle
  · cases hentry : r.typeIndex.entries typeId nameId with
    | none =>
      rw [hentry] at hselect
      cases hselect
    | some e =>
      rw [hentry, BeanContext.selectEntry] at hselect
      cases hhead : e.head with
      | none =>
        rw [hhead] at hselect
        exact h.uncached typeId nameId e hentry hhead id (mem_of_selectFallback hselect)
      | some head =>
        rw [hhead] at hselect
        dsimp only at hselect
        split_ifs at hselect with hambiguous
        obtain rfl := Except.ok.inj hselect
        exact h.cached typeId nameId e head hentry hhead (by simpa using hambiguous)

/-! ## What keeps the orphans -/

/-- The same descriptors, as far as an orphan can be told by them. -/
theorem LinkedAt.congr (h : r.LinkedAt id)
    (hds : r'.descriptors.map traits = r.descriptors.map traits) : r'.LinkedAt id := by
  obtain ⟨d, hd, horphan⟩ := h
  obtain ⟨d', hd', hsame⟩ := exists_of_traits hds.symm hd
  obtain ⟨hprimary, halias, -⟩ := eq_of_traits hsame
  exact ⟨d', hd', fun ho => horphan ⟨halias ▸ ho.1, hprimary ▸ ho.2⟩⟩

theorem LinkedAt.of_prefix (h : r.LinkedAt id) (hds : r.descriptors <+: r'.descriptors) :
    r'.LinkedAt id := by
  obtain ⟨d, hd, horphan⟩ := h
  obtain ⟨more, hmore⟩ := hds
  refine ⟨d, ?_, horphan⟩
  rw [← hmore, List.getElem?_append_left (List.getElem?_eq_some_iff.mp hd).1, hd]

theorem linkedAt_length (hds : r'.descriptors = r.descriptors ++ [d]) (hd : ¬IsOrphan d) :
    r'.LinkedAt r.descriptors.length :=
  ⟨d, by rw [hds, List.getElem?_concat_length], hd⟩

theorem not_isOrphan_bound (h : d.origin = .runtimeBinding) : ¬IsOrphan d := by
  rintro ⟨halias, -⟩
  simp [Descriptor.isExposedAlias, h] at halias

/-- Caches that stay as they are. -/
theorem HeadsLinked.of_eq (h : r.HeadsLinked) (hix : r'.typeIndex = r.typeIndex)
    (hlinked : ∀ id, r.LinkedAt id → r'.LinkedAt id) : r'.HeadsLinked where
  single typeId id hid := hlinked id (h.single typeId id (hix ▸ hid))
  cached typeId nameId e id he hid hambiguous :=
    hlinked id (h.cached typeId nameId e id (hix ▸ he) hid hambiguous)
  uncached typeId nameId e he hid id hmem :=
    hlinked id (h.uncached typeId nameId e (hix ▸ he) hid id hmem)

theorem Covered.congr (h : r.Covered)
    (hds : r'.descriptors.map traits = r.descriptors.map traits) : r'.Covered := by
  intro id d hd horphan
  obtain ⟨d₁, hd₁, hsame⟩ := exists_of_traits hds hd
  obtain ⟨hprimary, halias, hexposed, -, hname, -, hpriority⟩ := eq_of_traits hsame
  obtain ⟨id', d₂, hne, hd₂, htype, hkey, hweight⟩ :=
    h id d₁ hd₁ ⟨halias ▸ horphan.1, hprimary ▸ horphan.2⟩
  obtain ⟨d', hd', hsame'⟩ := exists_of_traits hds.symm hd₂
  obtain ⟨-, -, hexposed', -, hname', -, hpriority'⟩ := eq_of_traits hsame'
  refine ⟨id', d', hne, hd', ?_, ?_, ?_⟩
  · rw [← hexposed', htype, hexposed]
  · rw [← hname', hkey, hname]
  · rw [← hpriority', hweight, hpriority]

theorem Covered.append (h : r.Covered) (hds : r'.descriptors = r.descriptors ++ [d])
    (hd : ¬IsOrphan d) : r'.Covered := by
  intro id d' hd' horphan
  rw [hds] at hd' ⊢
  rcases getElem?_concat hd' with hold | ⟨-, rfl⟩
  · obtain ⟨id', d₂, hne, hd₂, hrest⟩ := h id d' hold horphan
    refine ⟨id', d₂, hne, ?_, hrest⟩
    rw [List.getElem?_append_left (List.getElem?_eq_some_iff.mp hd₂).1, hd₂]
  · exact absurd horphan hd

/-! ## The caches -/

/-- A candidate that outweighs all others of its key is no orphan. -/
theorem Covered.linkedAt (h : r.Covered)
    (hmax : IsUniqueMax r.priorityOf (keyIds r.descriptors typeId nameId) id) :
    r.LinkedAt id := by
  obtain ⟨d, hd, rfl, rfl⟩ := mem_keyIds.mp hmax.1
  refine ⟨d, hd, fun horphan => ?_⟩
  obtain ⟨id', d', hne, hd', htype, hname, hpriority⟩ := h id d hd horphan
  have hlt := hmax.2 id' (mem_keyIds.mpr ⟨d', hd', htype, hname⟩) hne
  simp only [priorityOf, hd, hd', Option.map_some, Option.getD_some, hpriority] at hlt
  exact absurd hlt (lt_irrefl _)

/-- Caches that agree with the descriptors lead to no orphan. -/
theorem headsLinked_of_agrees (h : r.Covered)
    (hagrees : ∀ typeId nameId, r.typeIndex.Agrees r.priorityOf typeId nameId
      (keyIds r.descriptors typeId nameId))
    (hfilled : ∀ typeId nameId e, r.typeIndex.entries typeId nameId = some e → e.head = none →
      e.candidates = []) : r.HeadsLinked where
  single typeId id hid := h.linkedAt ((hagrees typeId kUnnamed).single rfl id hid)
  cached typeId nameId e id he hid hambiguous := by
    have hcached := (hagrees typeId nameId).cached e id he hid
    rw [hambiguous, if_neg Bool.false_ne_true] at hcached
    exact h.linkedAt hcached
  uncached typeId nameId e he hid id hmem := by
    rw [hfilled typeId nameId e he hid] at hmem
    exact absurd hmem List.not_mem_nil

/-- A sorted entry has a head if it has candidates. -/
theorem filled_sortAllCandidates (r : Registry) (typeId : TypeId) (nameId : NameId) (e : NameEntry)
    (he : r.sortAllCandidates.typeIndex.entries typeId nameId = some e) (hhead : e.head = none) :
    e.candidates = [] := by
  obtain ⟨l, -, rfl⟩ := Option.map_eq_some_iff.mp he
  exact List.head?_eq_none_iff.mp hhead

theorem headsLinked_sortAllCandidates (h : r.Covered) (hr : r.Indexed) :
    r.sortAllCandidates.HeadsLinked :=
  headsLinked_of_agrees h (BeanContext.sortAllCandidates_agrees hr) (filled_sortAllCandidates r)

theorem headsLinked_publishCandidate (h : (r.appendCandidate d).Covered) (hr : r.Indexed)
    (hd : d.exposedType < r.typeInterning.size) : (r.publishCandidate d).HeadsLinked :=
  headsLinked_of_agrees h (BeanContext.publishCandidate_agrees hr hd)
    (filled_sortAllCandidates (r.appendCandidate d))

/-- A candidate that is inserted without a sort leaves the caches alone. -/
theorem HeadsLinked.appendCandidate (h : r.HeadsLinked) (hd : ¬IsOrphan d) :
    (r.appendCandidate d).HeadsLinked := by
  have hkept : ∀ {id}, r.LinkedAt id → (r.appendCandidate d).LinkedAt id :=
    fun hlinked => hlinked.of_prefix ⟨[d], rfl⟩
  have hlast : (r.appendCandidate d).LinkedAt r.descriptors.length := linkedAt_length rfl hd
  have hsingle : (r.appendCandidate d).typeIndex.singleUnnamed = r.typeIndex.singleUnnamed := by
    simp only [Registry.appendCandidate, TypeIndex.insertCandidate]
    split_ifs <;> rfl
  -- The entry of the key keeps its head, and gets the new candidate at its end.
  have hentry : ∀ typeId nameId e, (r.appendCandidate d).typeIndex.entries typeId nameId = some e →
      r.typeIndex.entries typeId nameId = some e ∨
        e = { r.typeIndex.tryEmplace typeId nameId with
          candidates := (r.typeIndex.tryEmplace typeId nameId).candidates ++
            [r.descriptors.length] } := by
    intro typeId nameId e he
    simp only [Registry.appendCandidate, TypeIndex.insertCandidate] at he
    split_ifs at he
    · dsimp only at he
      by_cases htype : typeId = d.exposedType
      · subst htype
        by_cases hname : nameId = d.name
        · subst hname
          rw [Function.update_self, Function.update_self] at he
          exact .inr (Option.some.inj he).symm
        · rw [Function.update_self, Function.update_of_ne hname] at he
          exact .inl he
      · rw [Function.update_of_ne htype] at he
        exact .inl he
    · exact .inl he
  have hemplaced : ∀ typeId nameId, r.typeIndex.tryEmplace typeId nameId = {} ∨
      r.typeIndex.entries typeId nameId = some (r.typeIndex.tryEmplace typeId nameId) := by
    intro typeId nameId
    unfold TypeIndex.tryEmplace
    cases r.typeIndex.entries typeId nameId with
    | none => exact .inl rfl
    | some e => exact .inr rfl
  refine ⟨fun typeId id hid => ?_, fun typeId nameId e id he hid hambiguous => ?_,
    fun typeId nameId e he hid id hmem => ?_⟩
  · exact hkept (h.single typeId id (hsingle ▸ hid))
  · rcases hentry typeId nameId e he with hold | rfl
    · exact hkept (h.cached typeId nameId e id hold hid hambiguous)
    · rcases hemplaced typeId nameId with hnew | hold
      · rw [hnew] at hid
        cases hid
      · exact hkept (h.cached typeId nameId _ id hold hid hambiguous)
  · rcases hentry typeId nameId e he with hold | rfl
    · exact hkept (h.uncached typeId nameId e hold hid id hmem)
    · rcases List.mem_append.mp hmem with hmem | hmem
      · rcases hemplaced typeId nameId with hnew | hold
        · rw [hnew] at hmem
          exact absurd hmem List.not_mem_nil
        · exact hkept (h.uncached typeId nameId _ hold hid id hmem)
      · rw [List.mem_singleton.mp hmem]
        exact hlast

theorem HeadsLinked.updateSingleUnnamed (h : r.HeadsLinked)
    (hsingle : ∀ id, r.typeIndex.candidatesFor typeId kUnnamed = some [id] → r.LinkedAt id) :
    ({ r with typeIndex := r.typeIndex.updateSingleUnnamed typeId } : Registry).HeadsLinked := by
  refine ⟨fun typeId' id hid => ?_, h.cached, h.uncached⟩
  simp only [TypeIndex.updateSingleUnnamed] at hid
  by_cases htype : typeId' = typeId
  · subst htype
    rw [Function.update_self] at hid
    split at hid
    · next id' hcandidates =>
      obtain rfl := Option.some.inj hid
      exact hsingle id' hcandidates
    · cases hid
  · rw [Function.update_of_ne htype] at hid
    exact h.single typeId' id hid

theorem Flushed.appendCandidate (h : r.Flushed) (d : Descriptor) :
    (r.appendCandidate d).Flushed := by
  simp only [Flushed, Registry.appendCandidate, TypeIndex.insertCandidate, h.1, if_true]
  exact ⟨trivial, h.2⟩

/-- All descriptors of a key are in its vector then. -/
theorem Flushed.mem_candidates (h : r.Flushed) (hr : r.Indexed) :
    id ∈ (r.typeIndex.candidatesFor typeId nameId).getD [] ↔
      id ∈ keyIds r.descriptors typeId nameId := by
  rw [← (hr.inserted typeId nameId).mem_iff, TypeIndex.inserted, TypeIndex.pendingFor, h.2]
  simp

/-! ## The start -/

theorem not_isOrphan_context (typeId : TypeId) : ¬IsOrphan (contextDescriptor typeId) :=
  not_isOrphan_bound rfl

/-- The caches after the first start: they are sorted, and the context bean comes last. -/
theorem headsLinked_finishStart {s : StartState} (h : s.registry.Covered)
    (hr : s.registry.Indexed) (ctx : Addr) :
    (finishStart (sortState s) ctx).registry.HeadsLinked := by
  set d := contextDescriptor (s.registry.typeInterning.internByName beanContextType).1 with hd
  set r := s.registry.sortAllCandidates.withTypes
    (s.registry.typeInterning.internByName beanContextType).2 with hr'
  have hsorted : (r.appendCandidate d).HeadsLinked :=
    ((headsLinked_sortAllCandidates h hr).of_eq rfl fun _ hlinked => hlinked :
    r.HeadsLinked).appendCandidate
      (not_isOrphan_context _)
  have hupdated := @HeadsLinked.updateSingleUnnamed _ d.exposedType hsorted fun id hid => ?_
  · refine hupdated.of_eq rfl fun id hlinked => hlinked.congr ?_
    exact map_numberSessions (fun _ _ => rfl) 0 (r.descriptors ++ [d])
  · -- The context bean is the last candidate of its key.
    have hcandidates : (r.appendCandidate d).typeIndex.candidatesFor d.exposedType kUnnamed =
        some ((r.typeIndex.tryEmplace d.exposedType kUnnamed).candidates ++
          [r.descriptors.length]) := by
      have hfinalized : r.typeIndex.finalized = true := rfl
      have hname : d.name = kUnnamed := rfl
      simp only [Registry.appendCandidate, TypeIndex.insertCandidate, hfinalized, if_true,
        TypeIndex.candidatesFor, hname, Function.update_self, Option.map_some]
    have hlast : id = r.descriptors.length := by
      rw [hcandidates] at hid
      have happend := congrArg List.getLast? (Option.some.inj hid)
      rw [List.getLast?_concat] at happend
      exact (Option.some.inj happend).symm
    rw [hlast]
    exact linkedAt_length rfl (not_isOrphan_context _)

/-- After phase 2.5, an alias of the same contribution has been made for each orphan. -/
theorem covered_of_linked {all : List ContributedDescriptor} (h : Grouped all r)
    (hr : r.Interned) (hlinked : ∀ cd ∈ all, cd.isExposedAlias = true →
      ∃ d ∈ r.descriptors, d.primaryDescriptor ≠ none ∧ r.entryOf d = contributedEntry cd) :
    r.Covered := by
  intro id d hd horphan
  have hmem := List.mem_of_getElem? hd
  obtain ⟨cd, hcd, halias, hentry⟩ := h.orphans d hmem horphan
  obtain ⟨d', hmem', hprimary, hentry'⟩ := hlinked cd hcd halias
  obtain ⟨id', hd'⟩ := List.mem_iff_getElem?.mp hmem'
  have hsame : r.entryOf d' = r.entryOf d := hentry'.trans hentry.symm
  refine ⟨id', d', fun heq => ?_, hd', ?_, ?_, congrArg Entry.priority hsame⟩
  · subst heq
    rw [Option.some.inj (hd'.symm.trans hd), horphan.2] at hprimary
    exact hprimary rfl
  · exact TypeInterning.nameOf_injective hr.indexed.types (hr.indexed.exposed d' hmem')
      (hr.indexed.exposed d hmem) (congrArg Entry.typeName hsame)
  · exact NameInterning.nameOf_injective hr.indexed.names (hr.named d' hmem') (hr.named d hmem)
      (congrArg Entry.beanName hsame)

/-- What holds of a registry before its contributions have been merged, and after it. -/
structure Kin (H : IdentityHashes) (r : Registry) : Prop where
  interned : r.Interned
  families : Families r.descriptors
  waiting : r.beanContextDescId = none → Discovered H r.pending ∧ Apart r.pending ∧
    Grouped (newContributions [] r.pending) r
  merged : r.beanContextDescId ≠ none → r.Covered ∧ r.HeadsLinked ∧ r.Flushed
  begun : r.started = true → r.beanContextDescId ≠ none

theorem kin_empty (H : IdentityHashes) (S : StdSort) : ({ stdSort := S } : Registry).Kin H where
  interned := interned_empty S
  families := families_nil
  waiting _ := ⟨discovered_nil, fun _ hcd => absurd hcd List.not_mem_nil,
    families_nil, fun _ hd => absurd hd List.not_mem_nil⟩
  merged hne := absurd rfl hne
  begun hs := absurd hs Bool.false_ne_true

/-- Once the contributions have been merged, no resolution selects an orphan. -/
theorem Kin.linkedAt (h : r.Kin H) (hs : r.started = true)
    (hselect : BeanContext.selectKey r typeId nameId = .ok id) : r.LinkedAt id :=
  (h.merged (h.begun hs)).2.1.linkedAt hselect

/-- Nothing changes that the families and the candidates depend on. -/
theorem Kin.of_eq (h : r.Kin H) (hr : r'.Interned) (hds : r'.descriptors = r.descriptors)
    (hix : r'.typeIndex = r.typeIndex) (hext : Extends r r') (hpending : r'.pending = r.pending)
    (hid : r'.beanContextDescId = r.beanContextDescId)
    (hstarted : r'.started = true → r'.beanContextDescId ≠ none) : r'.Kin H where
  interned := hr
  families := hds ▸ h.families
  waiting hnone := by
    obtain ⟨hdiscovered, hapart, hgrouped⟩ := h.waiting (hid ▸ hnone)
    rw [hpending]
    refine ⟨hdiscovered, hapart, hds ▸ hgrouped.families, fun d hd horphan => ?_⟩
    rw [hds] at hd
    obtain ⟨cd, hcd, halias, hentry⟩ := hgrouped.orphans d hd horphan
    exact ⟨cd, hcd, halias, (hext.entryOf h.interned hd).trans hentry⟩
  merged hne := by
    obtain ⟨hcovered, hheads, hflushed⟩ := h.merged (hid ▸ hne)
    refine ⟨hcovered.congr (by rw [hds]), hheads.of_eq hix fun id hl => hl.congr (by rw [hds]), ?_⟩
    rwa [Flushed, hix]
  begun := hstarted

/-- The outcome of the merge. -/
theorem Kin.merge (h : r.Kin H) (hid : r.beanContextDescId = none) (ctx : Addr) :
    (merge { registry := r } ctx).state.registry.Kin H := by
  obtain ⟨hdiscovered, hapart, hgrouped⟩ := h.waiting hid
  obtain ⟨hmerged, hlinked⟩ := hgrouped.mergeAndLink h.interned hdiscovered hapart
  have hinterned := mergeAndLink_interned h.interned
  -- The merge is finished, and the context bean is added, or it has failed and the next start
  -- merges again.
  cases hfail : (Registry.merge { registry := r } ctx).failure with
  | none =>
    obtain ⟨hok, -, -, hstate⟩ := merge_of_ok hfail
    have hcovered := covered_of_linked hmerged hinterned (hlinked hok)
    rw [hstate]
    set s := (mergeAndLink { registry := r }).state with hs
    have hds : (finishStart (sortState s) ctx).registry.descriptors.map traits =
        (s.registry.descriptors ++ [contextDescriptor s.registry.contextTypeId]).map traits :=
      finishStart_map s ctx fun _ _ => rfl
    refine ⟨(finishStart_interned hinterned ctx).1, ?_, fun hnone => ?_, fun _ => ⟨?_, ?_, ?_⟩,
      fun _ hnone => ?_⟩
    · exact (hmerged.families.append (.inl rfl)).congr hds
    · cases hnone
    · intro id d hd horphan
      have happended : Covered { s.registry with
          descriptors := s.registry.descriptors ++ [contextDescriptor s.registry.contextTypeId] } :=
        hcovered.append rfl (not_isOrphan_context _)
      exact happended.congr hds id d hd horphan
    · exact headsLinked_finishStart hcovered hinterned.indexed ctx
    · have hsorted : (s.registry.sortAllCandidates.withTypes
          (s.registry.typeInterning.internByName beanContextType).2).Flushed := ⟨rfl, fun _ => rfl⟩
      exact hsorted.appendCandidate (contextDescriptor s.registry.contextTypeId)
    · cases hnone
  | some e =>
    have hframe := (Frame.refl r).merge_of_fail hfail
    have hfinal : (Registry.merge { registry := r } ctx).state.registry.Interned ∧
        Grouped (newContributions [] r.pending)
          (Registry.merge { registry := r } ctx).state.registry := by
      rcases merge_of_fail hfail with hstate | hstate
      · rw [hstate]
        exact ⟨hinterned, hmerged⟩
      · rw [hstate]
        exact ⟨⟨hinterned.indexed.sortAllCandidates, hinterned.named, hinterned.pending⟩,
          hmerged.families, hmerged.orphans⟩
    refine ⟨hfinal.1, hfinal.2.families, fun _ => ?_, fun hne => ?_, fun hs => ?_⟩
    · rw [hframe.pending]
      exact ⟨hdiscovered, hapart, hfinal.2⟩
    · rw [hframe.beanContextDescId] at hne
      exact absurd hid hne
    · rw [hframe.started] at hs
      exact absurd hid (h.begun hs)

theorem Kin.start (h : r.Kin H) (ctx : Addr) : (r.start ctx).state.Kin H := by
  rcases start_cases r ctx with ⟨-, heq⟩ | ⟨descId, -, hid, heq⟩ | ⟨-, hid, heq⟩
  · rw [heq]
    exact h
  · rw [heq]
    refine h.of_eq ⟨h.interned.indexed, h.interned.named, h.interned.pending⟩ rfl rfl
      ⟨fun _ _ => rfl, fun _ _ => rfl, le_rfl, le_rfl⟩ rfl rfl fun _ => ?_
    exact ne_of_eq_of_ne hid (Option.some_ne_none _)
  · rw [heq]
    exact h.merge hid ctx

/-! ## Calls -/

/-- A descriptor of a bound instance. -/
structure BoundNext (r : Registry) (d : Descriptor) : Prop where
  bound : d.origin = .runtimeBinding
  primary : d.primaryDescriptor = some r.descriptors.length
  concrete : d.exposedType = d.concreteType
  exposed : d.exposedType < r.typeInterning.size
  named : d.name < r.nameInterning.size

theorem BoundNext.families (hd : BoundNext r d) (h : Families r.descriptors) :
    Families (r.descriptors ++ [d]) :=
  h.append (.inr ⟨List.getElem?_concat_length, hd.primary,
    by simp [Descriptor.isExposedAlias, hd.bound], hd.concrete⟩)

/-- A bound instance before the start. -/
theorem Kin.appendCandidate (h : r.Kin H) (hd : BoundNext r d) : (r.appendCandidate d).Kin H where
  interned := h.interned.appendCandidate hd.exposed hd.named
  families := hd.families h.families
  waiting hnone := by
    obtain ⟨hdiscovered, hapart, hgrouped⟩ := h.waiting hnone
    refine ⟨hdiscovered, hapart, hd.families hgrouped.families, fun d' hd' horphan => ?_⟩
    rcases List.mem_append.mp hd' with hd' | hd'
    · exact hgrouped.orphans d' hd' horphan
    · rw [List.mem_singleton.mp hd'] at horphan
      exact absurd horphan (not_isOrphan_bound hd.bound)
  merged hne := by
    obtain ⟨hcovered, hheads, hflushed⟩ := h.merged hne
    have horphan := not_isOrphan_bound hd.bound
    exact ⟨hcovered.append rfl horphan, hheads.appendCandidate horphan, hflushed.appendCandidate d⟩
  begun := h.begun

/-- A bound instance after the start. -/
theorem Kin.publishCandidate (h : r.Kin H) (hd : BoundNext r d) (hs : r.started = true) :
    (r.publishCandidate d).Kin H where
  interned := h.interned.publishCandidate hd.exposed hd.named
  families := hd.families h.families
  waiting hnone := absurd hnone (h.begun hs)
  merged hne := by
    have hcovered : (r.appendCandidate d).Covered :=
      (h.merged hne).1.append rfl (not_isOrphan_bound hd.bound)
    exact ⟨fun id d' hd' ho => hcovered id d' hd' ho,
      headsLinked_publishCandidate hcovered h.interned.indexed hd.exposed, rfl, fun _ => rfl⟩
  begun := h.begun

theorem Kin.withNames (h : r.Kin H) (name : String) :
    (r.withNames (r.nameInterning.intern name).2).Kin H :=
  h.of_eq (h.interned.withNames name) rfl rfl (h.interned.extends_names name) rfl rfl h.begun

/-- The types of a registry with more interned types. -/
theorem Kin.withTypes (h : r.Kin H) {ti : TypeInterning} (hti : ti = r.typeInterning ∨
    ∃ type, ti = (r.typeInterning.internByName type).2) : (r.withTypes ti).Kin H := by
  rcases hti with rfl | ⟨type, rfl⟩
  · exact h
  · exact h.of_eq (h.interned.withTypes type) rfl rfl (h.interned.extends_types type) rfl rfl
      h.begun

theorem adoptType_cases (r : Registry) (type : CppType) :
    (r.adoptType type).2 = r.typeInterning ∨
      ∃ type', (r.adoptType type).2 = (r.typeInterning.internByName type').2 := by
  unfold adoptType
  cases r.typeInterning.lookupByTypeIndex type.index with
  | some typeId => exact .inl rfl
  | none => exact .inr ⟨type, rfl⟩

theorem Kin.bindSingleton (h : r.Kin H) (type : CppType) {nameId : NameId}
    (hname : nameId < r.nameInterning.size) (priority : ℤ) (object : Addr) :
    (r.bindSingleton type nameId priority object).state.Kin H := by
  unfold Registry.bindSingleton
  split_ifs with _ hs
  · exact h
  · have htypes := h.withTypes (r.adoptType_cases type)
    have hlt := (h.interned.indexed.adoptType type).2
    simp only [bindSingletonStarted]
    split_ifs
    · exact htypes
    · have hstored : ((r.withTypes (r.adoptType type).2).growSingletons object).Kin H :=
        htypes.of_eq ⟨htypes.interned.indexed, htypes.interned.named, htypes.interned.pending⟩
          rfl rfl ⟨fun _ _ => rfl, fun _ _ => rfl, le_rfl, le_rfl⟩ rfl rfl htypes.begun
      exact hstored.publishCandidate ⟨rfl, rfl, rfl, hlt, hname⟩ hs
  · have hbound := h.interned.bindSingleton type hname priority object
    unfold Registry.bindSingleton at hbound
    rw [if_neg ‹_›, if_neg hs] at hbound
    unfold bindSingletonPending at hbound ⊢
    split_ifs at hbound ⊢
    · exact h
    · exact h.of_eq hbound rfl rfl ⟨fun _ _ => rfl, fun _ _ => rfl, le_rfl, le_rfl⟩ rfl rfl
        h.begun

theorem Kin.internSession (h : r.Kin H) (type : CppType) (name : String) :
    (r.internSession type name).Kin H := by
  refine (h.withNames name).withTypes ?_
  change (r.sessionType type).2 = r.typeInterning ∨
    ∃ type', (r.sessionType type).2 = (r.typeInterning.internByName type').2
  unfold sessionType
  split_ifs
  · exact r.adoptType_cases type
  · exact .inr ⟨type, rfl⟩

theorem Kin.sessionDescriptor (h : r.Kin H) {typeId : TypeId}
    (htype : typeId < r.typeInterning.size) {nameId : NameId}
    (hname : nameId < r.nameInterning.size) (priority : ℤ) :
    (r.sessionDescriptor typeId nameId priority).2.Kin H := by
  unfold Registry.sessionDescriptor
  split
  · exact h
  · simp only [appendSession]
    split_ifs with hs
    · have hcount : r.nextSessionSlot.Kin H :=
        h.of_eq ⟨h.interned.indexed, h.interned.named, h.interned.pending⟩ rfl rfl
          ⟨fun _ _ => rfl, fun _ _ => rfl, le_rfl, le_rfl⟩ rfl rfl h.begun
      exact hcount.publishCandidate ⟨rfl, rfl, rfl, htype, hname⟩ hs
    · exact h.appendCandidate ⟨rfl, rfl, rfl, htype, hname⟩

theorem Kin.discover (h : r.Kin H) {cds : List ContributedDescriptor} (hcds : Discovered H cds)
    (hapart : r.beanContextDescId = none → Apart (r.pending ++ cds)) :
    (r.submitContribution cds).state.Kin H := by
  unfold submitContribution
  split_ifs
  · exact h
  · refine ⟨⟨h.interned.indexed, h.interned.named, h.interned.pending⟩, h.families,
      fun hnone => ?_, fun hne => ?_, h.begun⟩
    · obtain ⟨hdiscovered, -, hgrouped⟩ := h.waiting hnone
      refine ⟨hdiscovered.append hcds, hapart hnone, hgrouped.families, fun d hd horphan => ?_⟩
      obtain ⟨cd, hcd, hrest⟩ := hgrouped.orphans d hd horphan
      exact ⟨cd, (newContributions_append [] r.pending cds).subset hcd, hrest⟩
    · obtain ⟨hcovered, hheads, hflushed⟩ := h.merged hne
      exact ⟨hcovered, hheads.of_eq rfl fun _ hl => hl, hflushed⟩

end Registry

namespace BeanContext

open Registry (Discovered Apart)

variable {H : IdentityHashes} {b : BeanContext}

/-- Every call keeps the families, if the discovered aliases can be told apart from the
    primaries. -/
theorem exec_kin (h : b.core.Kin H) {call : Call} (hcall : ∀ cds, call = .discover cds →
    Discovered H cds ∧ (b.core.beanContextDescId = none → Apart (b.core.pending ++ cds))) :
    (b.exec call).state.core.Kin H := by
  -- Each call appends candidates that are primaries, or none.
  cases call with
  | discover cds =>
    obtain ⟨hdiscovered, hapart⟩ := hcall cds rfl
    exact h.discover hdiscovered hapart
  | bindSingleton type name priority object =>
    exact (h.withNames name).bindSingleton type
      (NameInterning.intern_lt h.interned.indexed.names name) priority object
  | bindSession scope type name priority object =>
    simp only [exec, bindSession]
    split_ifs
    · exact h
    · exact h.internSession type name
    · rw [placeSession_core]
      exact (h.internSession type name).sessionDescriptor (h.interned.indexed.sessionType type).2
        (NameInterning.intern_lt h.interned.indexed.names name) priority
  | defaultNamed scope type name =>
    simp only [exec, defaultNamed]
    split_ifs
    · exact h
    · exact h
    · split
      · exact h
      · have hnames := h.withNames name
        split
        · exact hnames.of_eq ⟨hnames.interned.indexed, hnames.interned.named,
            hnames.interned.pending⟩ rfl rfl ⟨fun _ _ => rfl, fun _ _ => rfl, le_rfl, le_rfl⟩ rfl
            rfl hnames.begun
        · exact hnames
  | clearDefaultNamed scope type =>
    simp only [exec, clearDefaultNamed]
    split_ifs
    · exact h
    · split
      · exact h
      · split
        · exact h.of_eq ⟨h.interned.indexed, h.interned.named, h.interned.pending⟩ rfl rfl
            ⟨fun _ _ => rfl, fun _ _ => rfl, le_rfl, le_rfl⟩ rfl rfl h.begun
        · split_ifs <;> exact h
  | start => exact h.start b.self
  | startScope scope => rwa [exec, startScope_core]
  | stopScope scope => rwa [exec, Attempt.ok_state, stopScope_core]
  | restartScope scope => rwa [exec, restartScope_core]

end BeanContext

end Ctorium
