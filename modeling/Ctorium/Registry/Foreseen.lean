import Ctorium.Registry.Sources

/-!
# What the first start will select

The types that a start interns and the entries that it sorts are a matter of what has been
submitted before it. This module says in these terms which candidate of a key is selected
after a first start that succeeds.

* `selectKey_finishStart_candidates`: the selection after the start is the choice among the
  entries that have been sorted, and the context bean counts only if there is none;
* `finishStart_typeInterning`: after the start, the types of `startTypes` have been interned.
-/

namespace Ctorium

open Attempt UniqueMax

/-! ## Candidates by their entries -/

namespace Entry

def hasKey (typeName beanName : String) (e : Entry) : Bool :=
  e.typeName == typeName && e.beanName == beanName

variable {α : Type*} (entryOf : α → Entry)

/-- The candidates of a key: the context bean counts only if there is nothing else. -/
def candidates (sorted : List α) (context : α) (typeName beanName : String) : List α :=
  let ofKey := fun l : List α => l.filter fun x => (entryOf x).hasKey typeName beanName
  if (ofKey sorted).isEmpty then ofKey (sorted ++ [context]) else ofKey sorted

variable {entryOf}

theorem candidates_perm {sorted sorted' : List α} (h : sorted'.Perm sorted) (context : α)
    (typeName beanName : String) :
    (candidates entryOf sorted' context typeName beanName).Perm
      (candidates entryOf sorted context typeName beanName) := by
  have hkey := h.filter fun x => (entryOf x).hasKey typeName beanName
  simp only [candidates, hkey.isEmpty_eq]
  split_ifs
  · exact (h.append_right _).filter _
  · exact hkey

end Entry

section Table

variable {α : Type*} {entryOf : α → Entry} {table : List α} {r : Registry}

/-- The positions of the elements with a property lead to these elements. -/
theorem map_filter_range (xs : List α) (q : α → Bool) :
    ((List.range xs.length).filter fun i => xs[i]?.any q).map (fun i => xs[i]?) =
      (xs.filter q).map some := by
  induction xs using List.reverseRecOn with
  | nil => rfl
  | append_singleton xs x ih =>
    rw [List.length_append, List.length_singleton, List.range_succ, List.filter_append,
      List.map_append, List.filter_append, List.map_append, ← ih]
    have hold : ∀ i ∈ List.range xs.length, (xs ++ [x])[i]? = xs[i]? := fun i hi =>
      List.getElem?_append_left (List.mem_range.mp hi)
    congr 1
    · rw [List.filter_congr fun i hi => by rw [hold i hi]]
      exact List.map_congr_left fun i hi => hold i (List.mem_filter.mp hi).1
    · cases hq : q x <;> simp [hq]

/-- The candidates of a key, by their entries. -/
theorem map_keyIds (h : r.Interned) (htable : r.entries = table.map entryOf) {typeId : TypeId}
    (htype : typeId < r.typeInterning.size) {nameId : NameId}
    (hname : nameId < r.nameInterning.size) :
    (keyIds r.descriptors typeId nameId).map (fun id => table[id]?) =
      (table.filter fun x => (entryOf x).hasKey (r.typeInterning.nameOf typeId)
        (r.nameInterning.nameOf nameId)).map some := by
  have hlength : r.descriptors.length = table.length := by
    simpa [Registry.entries] using congrArg List.length htable
  rw [← map_filter_range, keyIds, hlength]
  refine congrArg _ (List.filter_congr fun id _ => ?_)
  have hget := congrArg (fun l => l[id]?) htable
  simp only [Registry.entries, List.getElem?_map] at hget
  cases hd : r.descriptors[id]? with
  | none =>
    rw [hd, Option.map_none] at hget
    rw [Option.map_eq_none_iff.mp hget.symm]
    rfl
  | some d =>
    rw [hd, Option.map_some] at hget
    obtain ⟨x, hx, hentry⟩ := Option.map_eq_some_iff.mp hget.symm
    have hmem := List.mem_of_getElem? hd
    rw [hx, Option.any_some, Option.any_some, Entry.hasKey, hentry, Bool.eq_iff_iff]
    simp only [Bool.and_eq_true, beq_iff_eq, h.typeName_entryOf_iff hmem htype,
      h.beanName_entryOf_iff hmem hname]

/-- The selection from a key is the selection from its entries. -/
theorem choose_keyIds (h : r.Interned) (htable : r.entries = table.map entryOf) {typeId : TypeId}
    (htype : typeId < r.typeInterning.size) {nameId : NameId}
    (hname : nameId < r.nameInterning.size) {priorityOf : DescriptorId → ℤ}
    (hpriority : ∀ id ∈ keyIds r.descriptors typeId nameId, priorityOf id = r.priorityOf id) :
    (choose priorityOf (keyIds r.descriptors typeId nameId)).map (fun id => table[id]?) =
      (choose (fun x => (entryOf x).priority) (table.filter fun x =>
        (entryOf x).hasKey (r.typeInterning.nameOf typeId)
          (r.nameInterning.nameOf nameId))).map some := by
  let key := fun x : Option α => (x.map fun x => (entryOf x).priority).getD 0
  have hrank : ∀ id ∈ keyIds r.descriptors typeId nameId,
      priorityOf id = (key ∘ fun id => table[id]?) id := by
    intro id hid
    obtain ⟨d, hd, -⟩ := mem_keyIds.mp hid
    have hget := congrArg (fun l => l[id]?) htable
    simp only [Registry.entries, List.getElem?_map, hd, Option.map_some] at hget
    obtain ⟨x, hx, hentry⟩ := Option.map_eq_some_iff.mp hget.symm
    rw [hpriority id hid, Registry.priorityOf, hd]
    simp only [Function.comp, key, hx, Option.map_some, Option.getD_some, hentry]
    rfl
  rw [choose_congr hrank, ← choose_map, map_keyIds h htable htype hname, choose_map]
  rfl

end Table

namespace Registry

/-! ## The selection after the start -/

section Finish

variable {α : Type*} {entryOf : α → Entry} {sorted : List α} {context : α} {s : StartState}

/-- The entries after the start: what has been sorted, and the context bean. -/
theorem entries_finishStart (h : s.registry.Interned)
    (hsorted : s.registry.entries = sorted.map entryOf) (hcontext : entryOf context = contextEntry)
    (ctx : Addr) : (finishStart (sortState s) ctx).registry.entries =
      (sorted ++ [context]).map entryOf := by
  rw [(finishStart_interned h ctx).2, hsorted, List.map_append, List.map_singleton, hcontext]

/-- The selection for a key after the start, by entries. -/
theorem selectKey_finishStart_candidates (h : s.registry.Interned)
    (hsorted : s.registry.entries = sorted.map entryOf) (hcontext : entryOf context = contextEntry)
    (ctx : Addr) {typeId : TypeId}
    (htype : typeId < (finishStart (sortState s) ctx).registry.typeInterning.size) {nameId : NameId}
    (hname : nameId < (finishStart (sortState s) ctx).registry.nameInterning.size) :
    (BeanContext.selectKey (finishStart (sortState s) ctx).registry typeId nameId).map
        (fun id => (sorted ++ [context])[id]?) =
      (choose (fun x => (entryOf x).priority) (Entry.candidates entryOf sorted context
        ((finishStart (sortState s) ctx).registry.typeInterning.nameOf typeId)
        ((finishStart (sortState s) ctx).registry.nameInterning.nameOf nameId))).map some := by
  have hinterned := (finishStart_interned h ctx).1
  have hentries := entries_finishStart h hsorted hcontext ctx
  set r := (finishStart (sortState s) ctx).registry
  let ofKey := fun l : List α => l.filter fun x =>
    (entryOf x).hasKey (r.typeInterning.nameOf typeId) (r.nameInterning.nameOf nameId)
  -- The descriptors that have been sorted, with the types of the end of the start.
  let r₁ := s.registry.withTypes (s.registry.typeInterning.internByName beanContextType).2
  have hinterned₁ : r₁.Interned := h.withTypes beanContextType
  have hentries₁ : r₁.entries = sorted.map entryOf :=
    ((h.extends_types beanContextType).entries h rfl).trans hsorted
  have hkeys : (keyIds s.registry.descriptors typeId nameId).map (fun id => sorted[id]?) =
      (ofKey sorted).map some := map_keyIds hinterned₁ hentries₁ htype hname
  have hchosen : (choose r.priorityOf (keyIds s.registry.descriptors typeId nameId)).map
      (fun id => sorted[id]?) = (choose (fun x => (entryOf x).priority) (ofKey sorted)).map some :=
    choose_keyIds hinterned₁ hentries₁ htype hname fun id hid =>
      priorityOf_finishStart_of_mem ctx hid
  have hcandidates : Entry.candidates entryOf sorted context (r.typeInterning.nameOf typeId)
      (r.nameInterning.nameOf nameId) =
      if (ofKey sorted).isEmpty then ofKey (sorted ++ [context]) else ofKey sorted := rfl
  rw [selectKey_finishStart_eq ctx h.indexed, hcandidates]
  by_cases hnil : keyIds s.registry.descriptors typeId nameId = []
  · have hempty : ofKey sorted = [] :=
      List.map_eq_nil_iff.mp (hkeys.symm.trans (List.map_eq_nil_iff.mpr hnil))
    rw [if_pos hnil, if_pos (List.isEmpty_iff.mpr hempty)]
    exact choose_keyIds hinterned hentries htype hname fun _ _ => rfl
  · have hne : ¬(ofKey sorted).isEmpty = true := fun hempty => hnil <| List.map_eq_nil_iff.mp
      (hkeys.trans (List.map_eq_nil_iff.mpr (List.isEmpty_iff.mp hempty)))
    rw [if_neg hnil, if_neg hne]
    refine Eq.trans ?_ hchosen
    change (choose r.priorityOf (keyIds s.registry.descriptors typeId nameId)).map _ =
      (choose r.priorityOf (keyIds s.registry.descriptors typeId nameId)).map _
    cases hchoose : choose r.priorityOf (keyIds s.registry.descriptors typeId nameId) with
    | error e => rfl
    | ok id =>
      obtain ⟨d, hd, -⟩ := mem_keyIds.mp (mem_of_choose hchoose)
      have hlength : sorted.length = s.registry.descriptors.length := by
        simpa [Registry.entries] using (congrArg List.length hsorted).symm
      have hlt : id < sorted.length := hlength ▸ (List.getElem?_eq_some_iff.mp hd).1
      exact congrArg Except.ok (List.getElem?_append_left hlt)

end Finish

/-! ## The types of the start -/

/-- The types that a first start interns, in their order. -/
def startTypes (r : Registry) : List CppType :=
  (newContributions [] r.pending).flatMap typesOf ++
    r.pendingRuntimeSingletons.map PendingRuntimeSingleton.type ++ [beanContextType]

/-- The types that will be interned after a first start. -/
def typesAfterStart (r : Registry) : TypeInterning := r.typeInterning.internAll r.startTypes

/-- The entries that a first start sorts. -/
def startEntries (r : Registry) : List Entry := r.entries ++ r.mergedEntries ++ r.pendingEntries

theorem internAll_append (ti : TypeInterning) (l l' : List CppType) :
    ti.internAll (l ++ l') = (ti.internAll l).internAll l' := List.foldl_append

theorem mergeContributions_typeInterning {r : Registry} {cds : List ContributedDescriptor}
    (hok : (forEach mergeContribution cds { registry := r }).failure = none) :
    (forEach mergeContribution cds { registry := r }).state.registry.typeInterning =
      r.typeInterning.internAll ((newContributions [] cds).flatMap typesOf) := by
  let Q := fun (new : List ContributedDescriptor) (s : StartState) =>
    s.identityMap.map Prod.fst = new.map ContributedDescriptor.identity ∧
      s.registry.typeInterning = r.typeInterning.internAll (new.flatMap typesOf)
  have hnone : Q [] { registry := r } := ⟨rfl, rfl⟩
  refine (merged_induction (Q := Q) (fun _ _ h => h.1) (fun new s cd _ h _ => ⟨?_, ?_⟩) hnone hok).2
  · simp [mergeNew, h.1]
  · rw [List.flatMap_append, internAll_append, ← h.2]
    rfl

variable {r : Registry}

theorem mergeAndLink_typeInterning (hok : (mergeAndLink { registry := r }).failure = none) :
    (mergeAndLink { registry := r }).state.registry.typeInterning =
      r.typeInterning.internAll ((newContributions [] r.pending).flatMap typesOf ++
        r.pendingRuntimeSingletons.map PendingRuntimeSingleton.type) := by
  obtain ⟨hmerge, -⟩ := andThen_failure_eq_none.mp hok
  obtain ⟨hcontributions, hsingletons⟩ := andThen_failure_eq_none.mp hmerge
  have hbound := bound_forEach hsingletons
  rw [forEach_mergeContribution_pendingRuntimeSingletons] at hbound
  rw [mergeAndLink, andThen_of_ok hmerge, (linkAll_entries _).2.1, mergeAll,
    andThen_of_ok hcontributions, forEach_mergeContribution_pendingRuntimeSingletons, hbound.types,
    mergeContributions_typeInterning hcontributions, internAll_append]

/-- After a first start that succeeds, the types of `startTypes` have been interned. -/
theorem finishStart_typeInterning (hok : (mergeAndLink { registry := r }).failure = none)
    (ctx : Addr) :
    (finishStart (sortState (mergeAndLink { registry := r }).state) ctx).registry.typeInterning =
      r.typesAfterStart.freeze := by
  rw [typesAfterStart, startTypes, internAll_append, ← mergeAndLink_typeInterning hok]
  rfl

end Registry

end Ctorium
