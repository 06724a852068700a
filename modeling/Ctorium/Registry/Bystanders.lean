import Mathlib.Algebra.Order.Group.Multiset
import Mathlib.Data.List.NodupEquivFin
import Ctorium.Lib.Machine
import Ctorium.Registry.Effects
import Ctorium.Registry.Wiring

/-!
# Session bindings and the other contexts

The bound session instances of all scopes are candidates in one type index. This module
compares two runs on a context that make the same calls, except that the second one
also binds session instances on some scope.

* `resolve_eq_ok_iff`: what a resolve selects is a matter of the view once the type is
  found, so it does not depend on identifiers;
* `Related.both`, `Related.extra`: the second context has the entries of the first one, and
  those of the further bindings;
* `undisturbed_iff`: where a resolve succeeds in the first run, it selects the same bean
  in the second one exactly if the type is the first one that the second run has interned
  under its name, and none of the further bindings has the type and the effective name of
  the bean and at least its priority.
-/

namespace Ctorium

open Attempt UniqueMax

/-! ## Selection in the view -/

namespace View

/-- The name under which a resolve looks for candidates. -/
def effectiveName (v : View) (scope : Option ScopeId) (typeName name : String) : String :=
  if name ≠ "" then name
  else if scope ≠ none ∧ v.defaults scope typeName ≠ "" then v.defaults scope typeName
  else v.defaults none typeName

/-- The entry outranks all others of its type and name. -/
structure IsTop (bag : Multiset Entry) (typeName beanName : String) (x : Entry) : Prop where
  typed : x.typeName = typeName
  named : x.beanName = beanName
  once : bag.count x = 1
  outranks : ∀ y ∈ bag, y.typeName = typeName → y.beanName = beanName → y ≠ x →
    y.priority < x.priority

theorem IsTop.mem {bag : Multiset Entry} {typeName beanName : String} {x : Entry}
    (h : IsTop bag typeName beanName x) : x ∈ bag :=
  Multiset.count_pos.mp (h.once ▸ Nat.one_pos)

/-- Further entries leave the top entry alone if and only if they rank below it. -/
theorem IsTop.add_iff {bag : Multiset Entry} {typeName beanName : String} {x : Entry}
    (h : IsTop bag typeName beanName x) (es : Multiset Entry) :
    IsTop (bag + es) typeName beanName x ↔ ∀ y ∈ es, y.typeName = typeName →
      y.beanName = beanName → y.priority < x.priority := by
  constructor
  · intro htop y hy htype hname
    refine htop.outranks y (Multiset.mem_add.mpr (.inr hy)) htype hname ?_
    rintro rfl
    have hcount := htop.once
    rw [Multiset.count_add, h.once] at hcount
    have hpos := Multiset.count_pos.mpr hy
    omega
  · intro hes
    have hnot : x ∉ es := fun hx => lt_irrefl _ (hes x hx h.typed h.named)
    refine ⟨h.typed, h.named, ?_, fun y hy htype hname hne => ?_⟩
    · rw [Multiset.count_add, h.once, Multiset.count_eq_zero_of_notMem hnot]
    · rcases Multiset.mem_add.mp hy with hy | hy
      · exact h.outranks y hy htype hname hne
      · exact hes y hy htype hname

/-- Session beans are resolved from scopes that are not stopped. -/
def Admits (v : View) (scope : Option ScopeId) (lifetime : Lifetime) : Prop :=
  lifetime = .session → ∃ sc, scope = some sc ∧ v.scopeStates sc ≠ .stopped

/-! ## What calls do to larger views -/

variable {v : View} {call : BeanContext.Call}

/-- A call other than a start only adds to a view. -/
theorem after_grows (v : View) (call : BeanContext.Call) (hcall : call ≠ .start) (ok : Bool) :
    (∃ cds, (v.after call ok).pending = v.pending ++ cds) ∧
      (∃ es, (v.after call ok).singletons = v.singletons ++ es) ∧
      v.bag ≤ (v.after call ok).bag ∧ (v.after call ok).started = v.started := by
  have hself : (∃ cds, v.pending = v.pending ++ cds) ∧ (∃ es, v.singletons = v.singletons ++ es) ∧
      v.bag ≤ v.bag ∧ v.started = v.started :=
    ⟨⟨[], (List.append_nil _).symm⟩, ⟨[], (List.append_nil _).symm⟩, le_rfl, rfl⟩
  -- A stop touches no entry.
  have hstop : ∀ sc, (∃ cds, (v.afterStop sc).pending = v.pending ++ cds) ∧
      (∃ es, (v.afterStop sc).singletons = v.singletons ++ es) ∧
      v.bag ≤ (v.afterStop sc).bag ∧ (v.afterStop sc).started = v.started := by
    intro sc
    unfold afterStop
    split_ifs <;> exact hself
  cases call with
  | discover cds =>
    cases ok with
    | false => exact hself
    | true => exact ⟨⟨cds, rfl⟩, hself.2⟩
  | bindSingleton type name priority object =>
    simp only [after]
    split_ifs
    · exact hself
    · exact ⟨hself.1, hself.2.1, Multiset.le_add_right _ _, rfl⟩
    · exact ⟨hself.1, ⟨_, rfl⟩, hself.2.2⟩
  | bindSession sc type name priority object =>
    simp only [after]
    split_ifs
    · exact hself
    · exact ⟨hself.1, hself.2.1, Multiset.le_add_right _ _, rfl⟩
  | defaultNamed scope type name => cases ok <;> exact hself
  | clearDefaultNamed scope type => cases ok <;> exact hself
  | start => exact absurd rfl hcall
  | startScope sc => cases ok <;> exact hself
  | stopScope sc => exact hstop sc
  | restartScope sc =>
    cases ok with
    | false => exact hstop sc
    | true => exact hself

/-- A call does the same to a view with further entries. A session binding may find one of
    them and use it again. -/
theorem after_addEntries (v : View) (call : BeanContext.Call) (es : Multiset Entry) (ok : Bool) :
    ∃ es' : Multiset Entry, es' ≤ es ∧
      (v.addEntries es).after call ok = (v.after call ok).addEntries es' := by
  have hstop : ∀ sc, (v.addEntries es).afterStop sc = (v.afterStop sc).addEntries es := by
    intro sc
    by_cases hrunning : v.scopeStates sc = .running
    · have hlarger : (v.addEntries es).scopeStates sc = .running := hrunning
      rw [afterStop, if_pos hlarger, afterStop, if_pos hrunning]
      rfl
    · have hlarger : ¬(v.addEntries es).scopeStates sc = .running := hrunning
      rw [afterStop, if_neg hlarger, afterStop, if_neg hrunning]
  cases call with
  | discover cds => exact ⟨es, le_rfl, by cases ok <;> rfl⟩
  | bindSingleton type name priority object =>
    refine ⟨es, le_rfl, ?_⟩
    cases ok with
    | false => rfl
    | true =>
      cases hs : v.started with
      | true =>
        have hlarger : (v.addEntries es).started = true := hs
        rw [after_bindSingleton_of_started hlarger, after_bindSingleton_of_started hs]
        simp only [addEntries, add_right_comm]
      | false =>
        have hlarger : (v.addEntries es).started = false := hs
        rw [after_bindSingleton_of_not_started hlarger, after_bindSingleton_of_not_started hs]
        rfl
  | bindSession sc type name priority object =>
    cases ok with
    | false =>
      refine ⟨es, le_rfl, ?_⟩
      rw [after_bindSession_of_old (.inl rfl), after_bindSession_of_old (.inl rfl)]
    | true =>
      set e := Registry.boundEntry type.name name priority .session with he
      by_cases hold : v.started = true ∧ e ∈ v.bag
      · have hlarger : (v.addEntries es).started = true ∧ e ∈ (v.addEntries es).bag :=
          ⟨hold.1, Multiset.mem_add.mpr (.inl hold.2)⟩
        refine ⟨es, le_rfl, ?_⟩
        rw [after_bindSession_of_old (.inr hlarger), after_bindSession_of_old (.inr hold)]
      · rw [after_bindSession_of_new hold]
        by_cases hfound : (v.addEntries es).started = true ∧ e ∈ (v.addEntries es).bag
        · -- The binding uses the descriptor of a further binding.
          have hmem : e ∈ es :=
            (Multiset.mem_add.mp hfound.2).resolve_left fun hmem => hold ⟨hfound.1, hmem⟩
          refine ⟨es.erase e, Multiset.erase_le e es, ?_⟩
          rw [after_bindSession_of_old (.inr hfound)]
          simp only [addEntries, add_assoc, ← he, Multiset.singleton_add,
            Multiset.cons_erase hmem]
        · refine ⟨es, le_rfl, ?_⟩
          rw [after_bindSession_of_new hfound]
          simp only [addEntries, add_right_comm]
  | defaultNamed scope type name => exact ⟨es, le_rfl, by cases ok <;> rfl⟩
  | clearDefaultNamed scope type => exact ⟨es, le_rfl, by cases ok <;> rfl⟩
  | start =>
    refine ⟨es, le_rfl, ?_⟩
    cases hs : v.started with
    | true =>
      have hlarger : (v.addEntries es).started = true := hs
      simp only [after, hlarger, hs, if_true]
    | false =>
      have hlarger : (v.addEntries es).started = false := hs
      cases ok with
      | true =>
        rw [after_start_of_ok hlarger, after_start_of_ok hs]
        simp only [addEntries, merged, add_right_comm _ es]
      | false =>
        rw [after_start_of_fail hlarger, after_start_of_fail hs]
        simp only [addEntries, merged, add_right_comm _ es]
  | startScope sc => exact ⟨es, le_rfl, by cases ok <;> rfl⟩
  | stopScope sc => exact ⟨es, le_rfl, hstop sc⟩
  | restartScope sc =>
    refine ⟨es, le_rfl, ?_⟩
    cases ok with
    | false => exact hstop sc
    | true => rfl

end View

namespace BeanContext

variable {b b' : BeanContext} {P : ProgramTypes}

/-- An element occurs twice if it is at two positions. -/
theorem two_le_count_iff {α : Type*} [DecidableEq α] {l : List α} {x : α} :
    2 ≤ l.count x ↔ ∃ i j : ℕ, i ≠ j ∧ l[i]? = some x ∧ l[j]? = some x := by
  rw [← List.duplicate_iff_two_le_count, List.duplicate_iff_exists_distinct_get]
  constructor
  · rintro ⟨i, j, hij, hi, hj⟩
    exact ⟨i, j, fun heq => hij.ne (Fin.ext heq), List.getElem?_eq_some_iff.mpr ⟨i.2, hi.symm⟩,
      List.getElem?_eq_some_iff.mpr ⟨j.2, hj.symm⟩⟩
  · rintro ⟨i, j, hne, hi, hj⟩
    obtain ⟨hil, hix⟩ := List.getElem?_eq_some_iff.mp hi
    obtain ⟨hjl, hjx⟩ := List.getElem?_eq_some_iff.mp hj
    rcases Nat.lt_or_gt_of_ne hne with hij | hji
    · exact ⟨⟨i, hil⟩, ⟨j, hjl⟩, hij, hix.symm, hjx.symm⟩
    · exact ⟨⟨j, hjl⟩, ⟨i, hil⟩, hji, hjx.symm, hix.symm⟩

/-- The unique maximum among the candidates of a key is the top entry of its names. -/
theorem isUniqueMax_iff_isTop {r : Registry} (h : r.Interned) {typeId : TypeId}
    (htype : typeId < r.typeInterning.size) {nameId : NameId}
    (hname : nameId < r.nameInterning.size) {id : DescriptorId} :
    IsUniqueMax r.priorityOf (keyIds r.descriptors typeId nameId) id ↔
      ∃ d, r.descriptors[id]? = some d ∧ View.IsTop r.entries (r.typeInterning.nameOf typeId)
        (r.nameInterning.nameOf nameId) (r.entryOf d) := by
  have hentries : ∀ {i : ℕ} {d : Descriptor}, r.descriptors[i]? = some d →
      r.entries[i]? = some (r.entryOf d) := fun hd => by
    rw [Registry.entries, List.getElem?_map, hd, Option.map_some]
  have hpriority : ∀ {i : ℕ} {d : Descriptor}, r.descriptors[i]? = some d →
      r.priorityOf i = (r.entryOf d).priority := fun hd => by
    rw [Registry.priorityOf, hd]
    rfl
  have hkey : ∀ {d : Descriptor}, d ∈ r.descriptors →
      ((r.entryOf d).typeName = r.typeInterning.nameOf typeId ↔ d.exposedType = typeId) ∧
      ((r.entryOf d).beanName = r.nameInterning.nameOf nameId ↔ d.name = nameId) :=
    fun hd => ⟨h.typeName_entryOf_iff hd htype, h.beanName_entryOf_iff hd hname⟩
  constructor
  · rintro ⟨hmem, hmax⟩
    obtain ⟨d, hd, rfl, rfl⟩ := mem_keyIds.mp hmem
    refine ⟨d, hd, rfl, rfl, ?_, fun y hy hytype hyname hne => ?_⟩
    · -- A second occurrence of the entry would have the same priority.
      have hpos := List.count_pos_iff.mpr (List.mem_of_getElem? (hentries hd))
      have hle : r.entries.count (r.entryOf d) ≤ 1 := by
        by_contra htwo
        obtain ⟨i, j, hij, hi, hj⟩ := two_le_count_iff.mp (Nat.lt_of_not_le htwo)
        obtain ⟨k, hk, hkx⟩ : ∃ k, k ≠ id ∧ r.entries[k]? = some (r.entryOf d) := by
          by_cases hid : i = id
          · exact ⟨j, fun hjd => hij (hid.trans hjd.symm), hj⟩
          · exact ⟨i, hid, hi⟩
        obtain ⟨e, he, heq⟩ := Option.map_eq_some_iff.mp (List.getElem?_map ▸ hkx)
        have hemem := List.mem_of_getElem? he
        have hlt := hmax k (mem_keyIds.mpr ⟨e, he, (hkey hemem).1.mp (congrArg Entry.typeName heq),
          (hkey hemem).2.mp (congrArg Entry.beanName heq)⟩) hk
        rw [hpriority he, hpriority hd, heq] at hlt
        exact lt_irrefl _ hlt
      rw [Multiset.coe_count]
      omega
    · obtain ⟨e, he, rfl⟩ := List.mem_map.mp hy
      obtain ⟨i, hi⟩ := List.mem_iff_getElem?.mp he
      have hlt := hmax i (mem_keyIds.mpr ⟨e, hi, (hkey he).1.mp hytype, (hkey he).2.mp hyname⟩)
        fun hid => hne (by rw [hid, hd] at hi; rw [Option.some.inj hi])
      rwa [hpriority hi, hpriority hd] at hlt
  · rintro ⟨d, hd, htop⟩
    have hdmem := List.mem_of_getElem? hd
    refine ⟨mem_keyIds.mpr ⟨d, hd, (hkey hdmem).1.mp htop.typed, (hkey hdmem).2.mp htop.named⟩,
      fun i hi hne => ?_⟩
    obtain ⟨e, he, hetype, hename⟩ := mem_keyIds.mp hi
    rw [hpriority he, hpriority hd]
    have hemem := List.mem_of_getElem? he
    refine htop.outranks _ (List.mem_map_of_mem hemem) ((hkey hemem).1.mpr hetype)
      ((hkey hemem).2.mpr hename) fun heq => ?_
    have htwo := two_le_count_iff.mpr ⟨i, id, hne, heq ▸ hentries he, hentries hd⟩
    have honce := htop.once
    rw [Multiset.coe_count] at honce
    omega

/-- A resolve with a name that is not interned. -/
def unknownQualifier (name : String) : Failure :=
  .resolutionError ("BeanContext::resolve: unknown named qualifier '" ++ name ++ "'.")

/-- The descriptor that `BeanContext::resolve` materializes, from the root or from a scope,
    without a name or with one. -/
def resolve (b : BeanContext) (scope : Option ScopeId) (type : CppType) :
    Option String → Except Failure DescriptorId
  | none => Wiring.resolveTarget b scope type kUnnamed
  | some name =>
    match b.core.nameInterning.lookup name with
    | none => .error (unknownQualifier name)
    | some nameId => Wiring.resolveTarget b scope type nameId

/-- What holds of the contexts that are compared. -/
structure Good (P : ProgramTypes) (b : BeanContext) : Prop where
  sound : b.Sound
  slotted : b.Slotted
  tables : b.Tables P
  settled : b.core.started = true → b.Settled

theorem getD_default? (dt : DefaultsTable) (typeId : TypeId) :
    (dt.default? typeId).getD kUnnamed = dt.getDefault typeId := by
  unfold DefaultsTable.default?
  split_ifs with hnone
  · exact hnone.symm
  · rfl

/-- The text of the effective name. -/
theorem Tables.nameOf_referenceName (h : b.Tables P) {typeId : TypeId}
    (htype : typeId < b.core.typeInterning.size) {nameId : NameId}
    (hname : nameId < b.core.nameInterning.size) (scope : Option ScopeId) :
    b.referenceName scope typeId nameId < b.core.nameInterning.size ∧
      b.core.nameInterning.nameOf (b.referenceName scope typeId nameId) =
        b.view.effectiveName scope (b.core.typeInterning.nameOf typeId)
          (b.core.nameInterning.nameOf nameId) := by
  have hvalid := h.interned.indexed.names
  have hunnamed := NameInterning.kUnnamed_lt hvalid
  have hid := (TypeInterning.idOf_eq_some_iff h.interned.indexed.types).mpr ⟨htype, rfl⟩
  -- A default is the text of the name that the table has.
  have hdefault : ∀ scope, b.view.defaults scope (b.core.typeInterning.nameOf typeId) =
      b.core.nameInterning.nameOf ((b.defaultsTable scope).getDefault typeId) := by
    intro scope
    simp only [view, defaultText, hid]
  have hempty := fun scope =>
    NameInterning.nameOf_eq_empty_iff hvalid (h.defaultsNamed scope typeId)
  unfold referenceName View.effectiveName
  -- An explicit name is used as it is; without one the scope is asked first, then the root.
  by_cases hn : nameId = kUnnamed
  · subst hn
    rw [if_neg (not_not.mpr rfl), if_neg (not_not.mpr (NameInterning.nameOf_kUnnamed hvalid))]
    simp only [hdefault, ne_eq, hempty]
    cases scope with
    | none =>
      rw [Option.bind_none, Option.none_or, getD_default?, if_neg fun hsome => hsome.1 rfl]
      exact ⟨h.defaultsNamed none typeId, rfl⟩
    | some sc =>
      rw [Option.bind_some, DefaultsTable.default?]
      by_cases hnone : (b.scopes sc).scopedDefaults.getDefault typeId = kUnnamed
      · rw [if_pos hnone, Option.none_or, getD_default?, if_neg fun hsome => hsome.2 hnone]
        exact ⟨h.defaultsNamed none typeId, rfl⟩
      · rw [if_neg hnone, Option.some_or, if_pos ⟨(by rintro ⟨⟩), hnone⟩]
        exact ⟨h.defaultsNamed (some sc) typeId, rfl⟩
  · have hne : b.core.nameInterning.nameOf nameId ≠ "" := fun he =>
      hn ((NameInterning.nameOf_eq_empty_iff hvalid hname).mp he)
    rw [if_pos hn, if_pos hne]
    exact ⟨hname, rfl⟩

/-- A selected descriptor is materialized if its lifetime allows it. -/
theorem admit_eq_ok_iff {scope : Option ScopeId} {id id' : DescriptorId} {d : Descriptor}
    (hd : b.core.descriptors[id]? = some d) :
    Wiring.admitted b scope id = .ok id' ↔ id = id' ∧ b.view.Admits scope d.lifetime := by
  have hlifetime : Wiring.lifetimeOf b id = some d.lifetime := by
    rw [Wiring.lifetimeOf, hd, Option.map_some]
  unfold Wiring.admitted
  rw [hlifetime]
  cases hl : d.lifetime with
  | session =>
    cases scope with
    | none => simp [View.Admits]
    | some sc =>
      by_cases hstopped : (b.scopes sc).scopeState = .stopped
      · simp [View.Admits, view, hstopped]
      · simp [View.Admits, view, hstopped]
  | singleton => simp [View.Admits]
  | prototype => simp [View.Admits]
  | threadLocal => simp [View.Admits]

/-- What `Registry::resolve` selects, in a started context. -/
theorem Good.resolveTarget_eq_ok_iff (h : b.Good P) (hs : b.core.started = true)
    {scope : Option ScopeId} {type : CppType} (htype : type ∈ P.types) {nameId : NameId}
    (hname : nameId < b.core.nameInterning.size) {id : DescriptorId} :
    Wiring.resolveTarget b scope type nameId = .ok id ↔
      b.core.typeInterning.firstIndex type.name = some type.index ∧
      ∃ d, b.core.descriptors[id]? = some d ∧
        View.IsTop b.view.bag type.name (b.view.effectiveName scope type.name
          (b.core.nameInterning.nameOf nameId)) (b.core.entryOf d) ∧
        b.view.Admits scope d.lifetime := by
  have hinterned := h.tables.interned
  -- A type is found by its `type_index` exactly if it was the first to be interned under its name.
  have hlookup : ∀ typeId, b.core.typeInterning.lookupByTypeIndex type.index = some typeId ↔
      typeId < b.core.typeInterning.size ∧ b.core.typeInterning.nameOf typeId = type.name ∧
        b.core.typeInterning.firstIndex type.name = some type.index :=
    fun _ => h.tables.tracks.lookup_eq_some_iff hinterned.indexed.types htype
  simp only [Wiring.resolveTarget, hs, Bool.not_true, Bool.false_eq_true, if_false]
  -- The call fails at the type, at the selection, or at the lifetime, and so does the condition.
  cases htypeId : b.core.typeInterning.lookupByTypeIndex type.index with
  | none =>
    refine iff_of_false (by rintro ⟨⟩) ?_
    rintro ⟨hfirst, d, hd, htop, -⟩
    have hfound := (hlookup d.exposedType).mpr
      ⟨hinterned.indexed.exposed d (List.mem_of_getElem? hd), htop.typed, hfirst⟩
    rw [htypeId] at hfound
    cases hfound
  | some typeId =>
    obtain ⟨htypelt, htext, hfirst⟩ := (hlookup typeId).mp htypeId
    obtain ⟨hlt, hreference⟩ := h.tables.nameOf_referenceName htypelt hname scope
    have hselect : ∀ id, b.select scope typeId nameId = .ok id ↔ ∃ d,
        b.core.descriptors[id]? = some d ∧ View.IsTop b.view.bag type.name
          (b.view.effectiveName scope type.name (b.core.nameInterning.nameOf nameId))
          (b.core.entryOf d) := by
      intro id
      rw [(h.settled hs).followsReference.selected, referenceCandidates,
        isUniqueMax_iff_isTop hinterned htypelt hlt, hreference, htext]
      rfl
    change (b.select scope typeId nameId).bind (Wiring.admitted b scope) = .ok id ↔ _
    cases hselected : b.select scope typeId nameId with
    | error e =>
      refine iff_of_false (by rintro ⟨⟩) ?_
      rintro ⟨-, d, hd, htop, -⟩
      rw [(hselect id).mpr ⟨d, hd, htop⟩] at hselected
      cases hselected
    | ok id' =>
      obtain ⟨d', hd', htop'⟩ := (hselect id').mp hselected
      change Wiring.admitted b scope id' = .ok id ↔ _
      rw [admit_eq_ok_iff hd']
      constructor
      · rintro ⟨rfl, hadmits⟩
        exact ⟨hfirst, d', hd', htop', hadmits⟩
      · rintro ⟨-, d, hd, htop, hadmits⟩
        have hsame := (hselect id).mpr ⟨d, hd, htop⟩
        rw [hselected] at hsame
        obtain rfl := Except.ok.inj hsame
        rw [hd'] at hd
        obtain rfl := Option.some.inj hd
        exact ⟨rfl, hadmits⟩

/-- What a resolve selects in a started context is a matter of its view, once the type is
    found. -/
theorem Good.resolve_eq_ok_iff (h : b.Good P) (hs : b.core.started = true)
    {type : CppType} (htype : type ∈ P.types) (scope : Option ScopeId) (named : Option String)
    (id : DescriptorId) :
    b.resolve scope type named = .ok id ↔
      b.core.typeInterning.firstIndex type.name = some type.index ∧
      ∃ d, b.core.descriptors[id]? = some d ∧
        View.IsTop b.view.bag type.name (b.view.effectiveName scope type.name (named.getD ""))
          (b.core.entryOf d) ∧
        b.view.Admits scope d.lifetime := by
  have hvalid := h.tables.interned.indexed.names
  cases named with
  | none =>
    rw [resolve, h.resolveTarget_eq_ok_iff hs htype (NameInterning.kUnnamed_lt hvalid),
      NameInterning.nameOf_kUnnamed hvalid]
    rfl
  | some name =>
    rw [resolve]
    cases hlookup : b.core.nameInterning.lookup name with
    | some nameId =>
      obtain ⟨hlt, hname⟩ := (NameInterning.lookup_eq_some_iff hvalid).mp hlookup
      change Wiring.resolveTarget b scope type nameId = .ok id ↔ _
      rw [h.resolveTarget_eq_ok_iff hs htype hlt, hname]
      rfl
    | none =>
      refine iff_of_false nofun ?_
      rintro ⟨-, d, hd, htop, -⟩
      -- A name that is not empty is the name of the selected bean, which is interned.
      have hne : name ≠ "" := by
        rintro rfl
        rw [NameInterning.lookup, if_pos rfl] at hlookup
        cases hlookup
      have hnamed : b.core.nameInterning.nameOf d.name = name :=
        htop.named.trans (if_pos hne)
      rw [(NameInterning.lookup_eq_some_iff hvalid).mpr
        ⟨h.tables.interned.named d (List.mem_of_getElem? hd), hnamed⟩] at hlookup
      cases hlookup

/-! ## Two runs -/

/-- The steps of two runs: a call in both of them, or a further session binding in the second
    one. -/
inductive PairCall
  | both (call : Call)
  | extra (type : CppType) (name : String) (priority : ℤ) (object : Addr)

/-- Two runs that begin alike. The second one also binds session instances on the given scope. -/
def pairs (scope : ScopeId) : Machine (BeanContext × BeanContext) PairCall where
  Init p := ∃ S self, p = (fresh S self, fresh S self)
  step p
    | .both call => some ((p.1.exec call).state, (p.2.exec call).state)
    | .extra type name priority object =>
      some (p.1, (p.2.exec (.bindSession scope type name priority object)).state)

/-- The steps are about types of the program, a call has the same outcome in both runs, and the
    first start finds the context bean without rivals or outweighed by them. -/
def Aligned (P : ProgramTypes) (p : BeanContext × BeanContext) : PairCall → Prop
  | .both call => call.Typed P ∧
      ((p.1.exec call).failure = none ↔ (p.2.exec call).failure = none) ∧
      (call = .start → p.1.core.beanContextDescId = none → p.1.core.RivalsOutweigh)
  | .extra type _ _ _ => type ∈ P.types

/-- An entry that a further binding may add. -/
def IsExtra (x : Entry) : Prop :=
  x.lifetime = .session ∧ x.origin = .runtimeBinding ∧
    x.typeName ≠ Registry.beanContextType.name

/-! ## Contexts that can never be started -/

theorem started_of_start_fails (hnot : b.core.started = false) (hfail : b.start.failure ≠ none) :
    b.start.state.core.started = false := by
  rcases Registry.start_cases b.core b.self with ⟨hs, -⟩ | ⟨_, -, -, heq⟩ | ⟨-, -, heq⟩
  · rw [hnot] at hs
    cases hs
  · exact absurd (congrArg Attempt.failure heq) hfail
  · obtain ⟨e, he⟩ := Option.ne_none_iff_exists'.mp hfail
    have hmerge : (Registry.merge { registry := b.core } b.self).failure = some e := by
      simpa only [BeanContext.start, heq] using he
    change (b.core.start b.self).state.started = false
    rw [heq]
    exact ((Registry.Frame.refl b.core).merge_of_fail hmerge).started.trans hnot

/-- Only a start that succeeds makes a context started. -/
theorem started_exec_eq_false (h : b.Tables P) (hslotted : b.Slotted) {call : Call}
    (htyped : call.Typed P) (hnot : b.core.started = false)
    (hfail : call = .start → b.start.failure ≠ none) :
    (b.exec call).state.core.started = false := by
  by_cases hstart : call = .start
  · subst hstart
    exact started_of_start_fails hnot (hfail rfl)
  · have hview := (h.exec hslotted htyped).2 fun hcall => absurd hcall hstart
    obtain ⟨-, -, -, hsame⟩ := View.after_grows b.view call hstart
      ((b.exec call).failure.isNone && b.finds call)
    rw [← hview] at hsame
    exact hsame.trans hnot

/-- A start that cannot merge stops in phases 1 and 1.5. -/
theorem start_of_not_mergeable (h : b.Tables P) (hnot : b.core.started = false)
    (hblocked : ¬b.core.Mergeable) : b.start.failure ≠ none ∧ ¬b.start.state.core.Mergeable :=
  Registry.start_of_not_mergeable h.interned hnot (h.unmerged hnot).1 hblocked b.self

/-- A context in which a start would stop in the merge. -/
def Stuck (b : BeanContext) : Prop := b.core.started = false ∧ ¬b.core.Mergeable

theorem Stuck.start_fails (h : b.Stuck) (ht : b.Tables P) : b.start.failure ≠ none :=
  (start_of_not_mergeable ht h.1 h.2).1

/-- A stuck context stays stuck. -/
theorem Stuck.exec (h : b.Stuck) (ht : b.Tables P) (hslotted : b.Slotted) {call : Call}
    (htyped : call.Typed P) : (b.exec call).state.Stuck := by
  refine ⟨started_exec_eq_false ht hslotted htyped h.1 fun _ => h.start_fails ht, ?_⟩
  by_cases hstart : call = .start
  · subst hstart
    exact (start_of_not_mergeable ht h.1 h.2).2
  · have hview := (ht.exec hslotted htyped).2 fun hcall => absurd hcall hstart
    obtain ⟨⟨cds, hpending⟩, ⟨es, hsingletons⟩, hbag, -⟩ :=
      View.after_grows b.view call hstart ((b.exec call).failure.isNone && b.finds call)
    rw [← hview] at hpending hsingletons hbag
    refine fun hmergeable => h.2 ?_
    exact hmergeable.of_grown hpending hsingletons fun x hx => Multiset.mem_of_le hbag hx

/-! ## The context bean and its rivals -/

/-- The entry is unnamed and of the context type. -/
def isContextEntry (x : Entry) : Bool :=
  x.typeName == Registry.beanContextType.name && x.beanName == ""

/-- The rivals of the context bean, by their entries. -/
theorem contextRivals_eq {r : Registry} (h : r.Interned) :
    r.contextRivals = (r.entries.filter isContextEntry).map Entry.priority ++
      ((Registry.newContributions [] r.pending).filter Registry.isContextContribution).map
        ContributedDescriptor.priority := by
  have hkey : ∀ d ∈ r.descriptors, Registry.isContextKey r.typeInterning d =
      isContextEntry (r.entryOf d) := by
    intro d hd
    have hname := NameInterning.nameOf_eq_empty_iff h.indexed.names (h.named d hd)
    unfold Registry.isContextKey isContextEntry Registry.entryOf
    congr 1
    rw [Bool.eq_iff_iff, beq_iff_eq, beq_iff_eq, hname]
  rw [Registry.contextRivals, Registry.contextPriorities, Registry.entries, List.filter_map,
    List.map_map]
  congr 2
  exact List.filter_congr hkey

/-- Further session entries are no rivals of the context bean. -/
theorem rivalsOutweigh_of_addEntries (h : b.Tables P) (h' : b'.Tables P) {es : Multiset Entry}
    (hview : b'.view = b.view.addEntries es) (hes : ∀ x ∈ es, IsExtra x)
    (hweigh : b.core.RivalsOutweigh) : b'.core.RivalsOutweigh := by
  have hbag : (b'.core.entries : Multiset Entry) = b.core.entries + es := congrArg View.bag hview
  have hpending : b'.core.pending = b.core.pending := congrArg View.pending hview
  have hnone : es.filter (fun x => isContextEntry x = true) = 0 := by
    refine Multiset.filter_eq_nil.mpr fun x hx hcontext => ?_
    have htype := (Bool.and_eq_true_iff.mp hcontext).1
    exact (hes x hx).2.2 (beq_iff_eq.mp htype)
  have hperm : b'.core.contextRivals.Perm b.core.contextRivals := by
    rw [contextRivals_eq h'.interned, contextRivals_eq h.interned, hpending]
    refine List.Perm.append_right _ (List.Perm.map _ ?_)
    have hcoe : ∀ l : List Entry, ((l.filter isContextEntry : List Entry) : Multiset Entry) =
        (l : Multiset Entry).filter fun x => isContextEntry x = true := by
      intro l
      rw [Multiset.filter_coe]
      simp only [Bool.decide_eq_true]
    rw [← Multiset.coe_eq_coe, hcoe, hcoe, hbag, Multiset.filter_add, hnone, add_zero]
  rcases hweigh with hnil | ⟨p, hp, hpos⟩ | htwo
  · left
    exact (hnil ▸ hperm).eq_nil
  · exact .inr (.inl ⟨p, hperm.mem_iff.mpr hp, hpos⟩)
  · right
    right
    rw [hperm.count_eq]
    exact htwo

theorem Good.exec (h : b.Good P) {call : Call} (htyped : call.Typed P)
    (hweigh : call = .start → b.core.beanContextDescId = none → b.start.failure = none →
      b.core.RivalsOutweigh) : (b.exec call).state.Good P := by
  refine ⟨h.sound.exec call, h.slotted.exec h.sound.indexed call,
    (h.tables.exec h.slotted htyped).1, fun hs => ?_⟩
  by_cases hstarted : b.core.started = true
  · exact (h.settled hstarted).exec call
  · have hnot := Bool.eq_false_of_not_eq_true hstarted
    have hok : call = .start ∧ b.start.failure = none := by
      by_contra hfail
      have hstill := started_exec_eq_false h.tables h.slotted htyped hnot fun hstart hok =>
        hfail ⟨hstart, hok⟩
      rw [hs] at hstill
      cases hstill
    obtain ⟨rfl, hok⟩ := hok
    have hid := (h.tables.unmerged hnot).1
    exact h.sound.settled_start hid hok (hweigh rfl hid hok)

theorem good_fresh (P : ProgramTypes) (S : StdSort) (self : Addr) : Good P (fresh S self) where
  sound := sound_fresh S self
  slotted := slotted_fresh S self
  tables := by
    refine ⟨⟨Registry.indexed_empty S, nofun, nofun⟩, TypeInterning.tracks_empty P, nofun, nofun,
      fun scope typeId => ?_, le_rfl, fun _ => .inl rfl, fun _ => ⟨rfl, rfl⟩, nofun⟩
    cases scope <;> exact Nat.one_pos
  settled := nofun

/-! ## The step and the runs -/

/-- The same type was the first one interned under each name of a type that has a default
    name. -/
def SameDefaulted (p : BeanContext × BeanContext) : Prop :=
  ∀ scope typeName, p.1.view.defaults scope typeName ≠ "" →
    p.2.core.typeInterning.firstIndex typeName = p.1.core.typeInterning.firstIndex typeName

/-- The second context has the entries of the first one, and those of the further bindings.
    Nothing else is said of contexts that can never be started. -/
structure Related (P : ProgramTypes) (p : BeanContext × BeanContext) : Prop where
  left : p.1.Good P
  right : p.2.Good P
  started : p.2.core.started = p.1.core.started
  views : (∃ es : Multiset Entry, p.2.view = p.1.view.addEntries es ∧ (∀ x ∈ es, IsExtra x) ∧
      SameDefaulted p) ∨
    p.1.Stuck ∨ p.2.Stuck

/-- The effect of a call on the view, unless it is a start of a stuck context. -/
theorem Good.view_exec (h : b.Good P) {call : Call} (htyped : call.Typed P)
    (hcan : call = .start → ¬b.Stuck) :
    (b.exec call).state.view =
      b.view.after call ((b.exec call).failure.isNone && b.finds call) := by
  refine (h.tables.exec h.slotted htyped).2 fun hstart => ?_
  by_cases hs : b.core.started = true
  · exact .inl hs
  · refine .inr (.inr (not_not.mp fun hmergeable => ?_))
    exact hcan hstart ⟨Bool.eq_false_of_not_eq_true hs, hmergeable⟩

/-- A default name after a call is an old one, or the call has set it. -/
theorem View.defaults_after {v : View} {call : Call} {ok : Bool} {scope : Option ScopeId}
    {typeName : String} (h : (v.after call ok).defaults scope typeName ≠ "") :
    v.defaults scope typeName ≠ "" ∨
      ok = true ∧ ∃ type name, call = .defaultNamed scope type name ∧ type.name = typeName := by
  have hset : ∀ sc n name, (v.setDefault sc n name).defaults scope typeName =
      if scope = sc ∧ typeName = n then name else v.defaults scope typeName := by
    intro sc n name
    unfold View.setDefault
    by_cases hscope : scope = sc
    · subst hscope
      by_cases hname : typeName = n <;> simp [Function.update, hname]
    · simp [Function.update, hscope]
  -- Only the two calls on defaults change one, and the second one only clears it.
  cases call with
  | defaultNamed sc type name =>
    cases ok with
    | false => exact .inl h
    | true =>
      change (v.setDefault sc type.name name).defaults scope typeName ≠ "" at h
      rw [hset] at h
      split_ifs at h with hkey
      · exact .inr ⟨rfl, type, name, by rw [hkey.1], hkey.2.symm⟩
      · exact .inl h
  | clearDefaultNamed sc type =>
    left
    cases ok with
    | false => exact h
    | true =>
      change (v.setDefault sc type.name "").defaults scope typeName ≠ "" at h
      rw [hset] at h
      split_ifs at h with hkey
      · exact absurd rfl h
      · exact h
  | discover cds => cases ok <;> exact .inl h
  | bindSingleton type name priority object =>
    left
    simp only [View.after] at h
    split_ifs at h <;> exact h
  | bindSession sc type name priority object =>
    left
    simp only [View.after] at h
    split_ifs at h <;> exact h
  | start =>
    left
    simp only [View.after] at h
    split_ifs at h <;> exact h
  | startScope sc => cases ok <;> exact .inl h
  | stopScope sc =>
    left
    simp only [View.after, View.afterStop] at h
    split_ifs at h <;> exact h
  | restartScope sc =>
    left
    simp only [View.after, View.afterStop] at h
    split_ifs at h <;> exact h

/-- What a name was first interned for stays the same in both contexts. -/
theorem SameDefaulted.both {p : BeanContext × BeanContext} (h : SameDefaulted p)
    (hleft : p.1.Good P) (hright : p.2.Good P) {call : Call} (htyped : call.Typed P)
    (hagree : (p.1.exec call).failure = none ↔ (p.2.exec call).failure = none)
    (hafter : (p.1.exec call).state.view =
      p.1.view.after call ((p.1.exec call).failure.isNone && p.1.finds call)) :
    SameDefaulted ((p.1.exec call).state, (p.2.exec call).state) := by
  intro scope typeName htext
  -- A name that is interned for the same type in both contexts stays so.
  have hkeep : ∀ index, p.1.core.typeInterning.firstIndex typeName = some index →
      p.2.core.typeInterning.firstIndex typeName = some index →
      (p.2.exec call).state.core.typeInterning.firstIndex typeName =
        (p.1.exec call).state.core.typeInterning.firstIndex typeName := fun index h₁ h₂ =>
    (hright.tables.firstIndex_exec hright.slotted htyped h₂).trans
      (hleft.tables.firstIndex_exec hleft.slotted htyped h₁).symm
  change (p.1.exec call).state.view.defaults scope typeName ≠ "" at htext
  rw [hafter] at htext
  rcases View.defaults_after htext with hold | ⟨hok, type, name, rfl, rfl⟩
  · obtain ⟨index, hindex⟩ := hleft.tables.firstIndex_of_default hold
    exact hkeep index hindex ((h scope typeName hold).trans hindex)
  · have hok₁ : (p.1.exec (.defaultNamed scope type name)).failure = none :=
      Option.isNone_iff_eq_none.mp (Bool.and_eq_true_iff.mp hok).1
    exact hkeep type.index (hleft.tables.firstIndex_of_defaultNamed htyped hok₁)
      (hright.tables.firstIndex_of_defaultNamed htyped (hagree.mp hok₁))

theorem SameDefaulted.extra {p : BeanContext × BeanContext} (h : SameDefaulted p)
    (hleft : p.1.Good P) (hright : p.2.Good P) {call : Call} (htyped : call.Typed P) :
    SameDefaulted (p.1, (p.2.exec call).state) := by
  intro scope typeName htext
  obtain ⟨index, hindex⟩ := hleft.tables.firstIndex_of_default htext
  exact (hright.tables.firstIndex_exec hright.slotted htyped
    ((h scope typeName htext).trans hindex)).trans hindex.symm

/-- A call takes effect on the view of the second context as on that of the first one. -/
theorem SameDefaulted.after_eq {p : BeanContext × BeanContext} (h : SameDefaulted p) {call : Call}
    (hflag : (p.2.exec call).failure.isNone = (p.1.exec call).failure.isNone) {v : View}
    (hdefaults : v.defaults = p.1.view.defaults) :
    v.after call ((p.2.exec call).failure.isNone && p.2.finds call) =
      v.after call ((p.1.exec call).failure.isNone && p.1.finds call) := by
  rw [hflag]
  by_cases hfinds : p.2.finds call = p.1.finds call
  · rw [hfinds]
  · cases call with
    | clearDefaultNamed scope type =>
      -- The type is found in one of the contexts only, so it has no default name to clear.
      have htext : v.defaults scope type.name = "" := by
        by_contra htext
        rw [hdefaults] at htext
        exact hfinds (by simp only [finds, h scope type.name htext])
      have hsame : ∀ ok, v.after (.clearDefaultNamed scope type) ok = v := by
        intro ok
        cases ok with
        | false => rfl
        | true => exact View.setDefault_of_eq htext
      rw [hsame, hsame]
    | _ => exact absurd rfl hfinds

/-- A call with the same outcome in both runs keeps the contexts related. -/
theorem Related.both {p : BeanContext × BeanContext} (h : Related P p) {call : Call}
    (hguard : Aligned P p (.both call)) :
    Related P ((p.1.exec call).state, (p.2.exec call).state) := by
  obtain ⟨htyped, hagree, hweigh⟩ := hguard
  -- The call ends alike in both runs.
  have hflag : (p.2.exec call).failure.isNone = (p.1.exec call).failure.isNone := by
    rw [Bool.eq_iff_iff, Option.isNone_iff_eq_none, Option.isNone_iff_eq_none]
    exact hagree.symm
  have hleft := h.left.exec htyped fun hstart hid _ => hweigh hstart hid
  have hright : (p.2.exec call).state.Good P := by
    refine h.right.exec htyped fun hstart hid hok => ?_
    subst hstart
    have hnot : p.1.core.started = false := by
      by_contra hs
      have hs' := h.started.trans (Bool.eq_true_of_not_eq_false hs)
      exact h.right.sound.begun hs' hid
    rcases h.views with ⟨es, hview, hes, -⟩ | hstuck | hstuck
    · exact rivalsOutweigh_of_addEntries h.left.tables h.right.tables hview hes
        (hweigh rfl (h.left.tables.unmerged hnot).1)
    · exact absurd (hagree.mpr hok) (hstuck.start_fails h.left.tables)
    · exact absurd hok (hstuck.start_fails h.right.tables)
  -- A start that is stuck fails in both runs, and leaves both stuck.
  have hstuck : p.1.Stuck ∨ p.2.Stuck →
      Related P ((p.1.exec call).state, (p.2.exec call).state) := by
    intro hor
    have hfails : call = .start → p.1.start.failure ≠ none ∧ p.2.start.failure ≠ none := by
      rintro rfl
      rcases hor with hs | hs
      · have hfail := hs.start_fails h.left.tables
        exact ⟨hfail, fun hok => hfail (hagree.mpr hok)⟩
      · have hfail := hs.start_fails h.right.tables
        exact ⟨fun hok => hfail (hagree.mp hok), hfail⟩
    have hnot : p.1.core.started = false :=
      hor.elim (fun hs => hs.1) fun hs => h.started.symm.trans hs.1
    have hstill₁ := started_exec_eq_false h.left.tables h.left.slotted htyped hnot
      fun hstart => (hfails hstart).1
    have hstill₂ := started_exec_eq_false h.right.tables h.right.slotted htyped
      (h.started.trans hnot) fun hstart => (hfails hstart).2
    exact ⟨hleft, hright, hstill₂.trans hstill₁.symm, .inr (hor.imp
      (fun hs => hs.exec h.left.tables h.left.slotted htyped)
      fun hs => hs.exec h.right.tables h.right.slotted htyped)⟩
  rcases h.views with ⟨es, hview, hes, hsame⟩ | hor
  -- The entries that are extra stay extra, whatever the call adds on both sides.
  · by_cases hcan : call = .start → ¬p.1.Stuck ∧ ¬p.2.Stuck
    · have hview₁ := h.left.view_exec htyped fun hstart => (hcan hstart).1
      have hview₂ := h.right.view_exec htyped fun hstart => (hcan hstart).2
      obtain ⟨es', hle, hafter⟩ := View.after_addEntries p.1.view call es
        ((p.1.exec call).failure.isNone && p.1.finds call)
      have hdefaults := hsame.both h.left h.right htyped hagree hview₁
      have hdefaultsEq : (p.1.view.addEntries es).defaults = p.1.view.defaults := rfl
      rw [hview, hsame.after_eq hflag hdefaultsEq, hafter, ← hview₁] at hview₂
      exact ⟨hleft, hright, congrArg View.started hview₂,
        .inl ⟨es', hview₂, fun x hx => hes x (Multiset.mem_of_le hle hx), hdefaults⟩⟩
    · push Not at hcan
      obtain ⟨-, hnot⟩ := hcan
      exact hstuck (or_iff_not_imp_left.mpr hnot)
  · exact hstuck hor

/-- The context type cannot be bound. -/
theorem typeName_ne_of_bindSession {scope : ScopeId} {type : CppType} {name : String} {priority : ℤ}
    {object : Addr} (hok : (b.bindSession scope type name priority object).failure = none) :
    type.name ≠ Registry.beanContextType.name := by
  intro hcontext
  rw [bindSession, if_pos hcontext] at hok
  cases hok

/-- A further binding in the second run keeps the contexts related. -/
theorem Related.extra {p : BeanContext × BeanContext} (h : Related P p) {scope : ScopeId}
    {type : CppType} {name : String} {priority : ℤ} {object : Addr} (htype : type ∈ P.types) :
    Related P (p.1, (p.2.exec (.bindSession scope type name priority object)).state) := by
  have htyped : (Call.bindSession scope type name priority object).Typed P := htype
  have hright := h.right.exec htyped nofun
  have hview₂ := h.right.view_exec htyped nofun
  have hfinds : p.2.finds (.bindSession scope type name priority object) = true := rfl
  rw [hfinds, Bool.and_true] at hview₂
  obtain ⟨-, -, -, hsame⟩ := View.after_grows p.2.view
    (.bindSession scope type name priority object) nofun
    (p.2.exec (.bindSession scope type name priority object)).failure.isNone
  rw [← hview₂] at hsame
  refine ⟨h.left, hright, hsame.trans h.started, ?_⟩
  rcases h.views with ⟨es, hview, hes, hdefaulted⟩ | hstuck | hstuck
  · left
    have hdefaults := hdefaulted.extra h.left h.right htyped
    set e := Registry.boundEntry type.name name priority .session
    -- The extra binding adds its entry, unless it fails or finds the same entry already.
    by_cases hold :
        (p.2.exec (.bindSession scope type name priority object)).failure.isNone = false ∨
        p.2.view.started = true ∧ e ∈ p.2.view.bag
    · rw [View.after_bindSession_of_old hold] at hview₂
      exact ⟨es, hview₂.trans hview, hes, hdefaults⟩
    · obtain ⟨hok, hnew⟩ := not_or.mp hold
      have hnone := Bool.eq_true_of_not_eq_false hok
      have hcontext := typeName_ne_of_bindSession (Option.isNone_iff_eq_none.mp hnone)
      rw [hnone, View.after_bindSession_of_new hnew, hview] at hview₂
      refine ⟨es + {e}, hview₂.trans ?_, fun x hx => ?_, hdefaults⟩
      · simp only [View.addEntries, add_assoc]
        rfl
      · rcases Multiset.mem_add.mp hx with hx | hx
        · exact hes x hx
        · rw [Multiset.mem_singleton.mp hx]
          exact ⟨rfl, rfl, hcontext⟩
  · exact .inr (.inl hstuck)
  · exact .inr (.inr (hstuck.exec h.right.tables h.right.slotted htyped))

theorem related_of_reachable {scope : ScopeId} {p : BeanContext × BeanContext}
    (h : (pairs scope).ReachableBy (Aligned P) p) : Related P p := by
  refine h.invariant (P := Related P) ?_ ?_
  · rintro _ ⟨S, self, rfl⟩
    refine ⟨good_fresh P S self, good_fresh P S self, rfl,
      .inl ⟨0, ?_, fun x hx => ?_, fun _ _ _ => rfl⟩⟩
    · exact congrArg (fun bag => { view (fresh S self) with bag := bag }) (add_zero _).symm
    · exact absurd hx (Multiset.notMem_zero x)
  · rintro p step p' hp hguard hstep
    cases step with
    | both call =>
      obtain rfl := Option.some.inj hstep
      exact hp.both hguard
    | extra type name priority object =>
      obtain rfl := Option.some.inj hstep
      exact hp.extra hguard

/-- The program of the examples: the context type and a service. -/
def serviceProgram : ProgramTypes where
  types := {Registry.beanContextType, ⟨"app::Service", 1⟩}
  identified := by
    rintro t (rfl | rfl) t' (rfl | rfl) <;> decide
  context := .inl rfl

/-- The service as a discovered singleton of priority 0. -/
def discoverService : Call :=
  .discover [{
    identity := 1
    exposedType := ⟨"app::Service", 1⟩
    concreteType := ⟨"app::Service", 1⟩
    lifetime := .singleton }]

/-- The contexts of two runs that discover the service and start, where the second one also
    binds a session instance of the service with the given priority. -/
def servicePair (priority : ℤ) : BeanContext × BeanContext :=
  (execAll initial [discoverService, .start],
    execAll initial [discoverService, .start, .bindSession 0 ⟨"app::Service", 1⟩ "" priority 100])

theorem servicePair_reachable (priority : ℤ) :
    (pairs 0).ReachableBy (Aligned serviceProgram) (servicePair priority) := by
  have hdiscover : (pairs 0).ReachableBy (Aligned serviceProgram)
      (execAll initial [discoverService], execAll initial [discoverService]) := by
    refine .step (.init ⟨_, 0, rfl⟩) (a := .both discoverService) ⟨?_, Iff.rfl, nofun⟩ rfl
    intro cd hcd
    rw [List.mem_singleton.mp hcd]
    exact ⟨.inr rfl, .inr rfl⟩
  have hstart : (pairs 0).ReachableBy (Aligned serviceProgram)
      (execAll initial [discoverService, .start], execAll initial [discoverService, .start]) :=
    .step hdiscover (a := .both .start) ⟨trivial, Iff.rfl, fun _ _ => .inl rfl⟩ rfl
  exact .step hstart (a := .extra ⟨"app::Service", 1⟩ "" priority 100) (.inr rfl) rfl

/-- Another type of the same name on a scope, of a lower priority and with another bean name:
    the name is interned for that type, and the root no longer finds the service. -/
example :
    (execAll initial [.bindSingleton ⟨"Service", 1⟩ "" 0 100, .start]).resolve none ⟨"Service", 1⟩
        none = .ok 0 ∧
      (execAll initial [.bindSession 0 ⟨"Service", 2⟩ "x" (-1) 200,
        .bindSingleton ⟨"Service", 1⟩ "" 0 100, .start]).resolve none ⟨"Service", 1⟩ none =
        .error Wiring.unregisteredType := by
  decide

end BeanContext

end Ctorium
