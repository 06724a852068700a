import Ctorium.Registry.View

/-!
# The effects of the calls

What the calls on a context do to its view: each of them does what `View.after` says,
and keeps the tables in order (`Tables.exec`). The only exception is a start that fails
because the pending contributions and singletons cannot be merged, which leaves some of
them behind; such a context never starts. A name stays with the type that was the first one
interned under it (`Tables.firstIndex_exec`).
-/

namespace Ctorium

open Attempt

namespace View

variable {v : View} {type : CppType} {name : String} {priority : ℤ} {object : Addr}
  {scope : ScopeId} {ok : Bool}

theorem addEntries_nil (v : View) : v.addEntries ([] : List Entry) = v := by
  simp [addEntries]

theorem after_bindSingleton_of_started (hs : v.started = true) :
    v.after (.bindSingleton type name priority object) true =
      v.addEntries {Registry.boundEntry type.name name priority .singleton} := by
  simp [after, hs]

theorem after_bindSingleton_of_not_started (hs : v.started = false) :
    v.after (.bindSingleton type name priority object) true = { v with
      singletons := v.singletons ++ [Registry.boundEntry type.name name priority .singleton] } := by
  simp [after, hs]

/-- A session binding that fails or that uses a descriptor again. -/
theorem after_bindSession_of_old (h : ok = false ∨ v.started = true ∧
      Registry.boundEntry type.name name priority .session ∈ v.bag) :
    v.after (.bindSession scope type name priority object) ok = v := if_pos h

theorem after_bindSession_of_new (h : ¬(v.started = true ∧
      Registry.boundEntry type.name name priority .session ∈ v.bag)) :
    v.after (.bindSession scope type name priority object) true =
      v.addEntries {Registry.boundEntry type.name name priority .session} :=
  if_neg fun hor => hor.elim nofun h

/-- The first start that succeeds. -/
theorem after_start_of_ok (hs : v.started = false) : v.after .start true = { v with
    bag := v.bag + v.merged + {Registry.contextEntry}, singletons := [], started := true } := by
  simp [after, hs, addEntries]

theorem after_start_of_fail (hs : v.started = false) : v.after .start false = { v with
    bag := v.bag + v.merged, singletons := [] } := by
  simp [after, hs, addEntries]

end View

namespace BeanContext

variable {b b' : BeanContext} {P : ProgramTypes}

/-- The call is about types of the program. -/
def Call.Typed (P : ProgramTypes) : Call → Prop
  | .discover cds => ∀ cd ∈ cds, cd.exposedType ∈ P.types ∧ cd.concreteType ∈ P.types
  | .bindSingleton type _ _ _ | .bindSession _ type _ _ _ | .defaultNamed _ type _
  | .clearDefaultNamed _ type => type ∈ P.types
  | .start | .startScope _ | .stopScope _ | .restartScope _ => True

/-- The default name of a type that is not found is not cleared, and the call does not fail. -/
def finds (b : BeanContext) : Call → Bool
  | .clearDefaultNamed _ type => b.core.typeInterning.firstIndex type.name == some type.index
  | _ => true

/-- The outcome of a call keeps the tables in order, and the view is as expected. -/
def Effect (P : ProgramTypes) (b : BeanContext) (call : Call)
    (outcome : Attempt Failure BeanContext) : Prop :=
  outcome.state.Tables P ∧
    outcome.state.view = b.view.after call (outcome.failure.isNone && b.finds call)

theorem Effect.of_ok {call : Call} {outcome : Attempt Failure BeanContext}
    (hok : outcome.failure = none) (hfinds : b.finds call = true)
    (htables : outcome.state.Tables P) (hview : outcome.state.view = b.view.after call true) :
    Effect P b call outcome := by
  refine ⟨htables, ?_⟩
  rw [hok, hfinds]
  exact hview

theorem Effect.of_fail {call : Call} {outcome : Attempt Failure BeanContext}
    (hfail : outcome.failure ≠ none) (htables : outcome.state.Tables P)
    (hview : outcome.state.view = b.view.after call false) : Effect P b call outcome := by
  refine ⟨htables, ?_⟩
  rw [Option.isNone_eq_false_iff.mpr (Option.isSome_iff_ne_none.mpr hfail)]
  exact hview

/-- A call that is refused has changed at most the interning tables. -/
theorem Tables.refused (h : b.Tables P) (hg : Grown P b b' []) : b'.Tables P ∧ b'.view = b.view :=
  ⟨h.grown hg, (h.view_grown hg).trans (View.addEntries_nil _)⟩

theorem discover_effect (h : b.Tables P) {cds : List ContributedDescriptor}
    (htyped : (Call.discover cds).Typed P) : Effect P b (.discover cds) (b.discover cds) := by
  simp only [discover, Registry.submitContribution]
  split_ifs
  · exact ⟨h, rfl⟩
  · refine ⟨⟨⟨h.interned.indexed, h.interned.named, h.interned.pending⟩, h.tracks, fun cd hcd => ?_,
      h.pendingTypes, h.defaultsNamed, h.defaultsSized, h.scopeSized, h.unmerged, h.flushed⟩, ?_⟩
    · exact (List.mem_append.mp hcd).elim (h.contributed cd) (htyped cd)
    · rfl

/-! ## Singleton bindings -/

/-- A binding on a started registry is refused, or it adds an entry. -/
theorem bindSingletonStarted_grown (h : b.Tables P) (hstarted : b.core.started = true)
    {type : CppType} (htype : type ∈ P.types) {nameId : NameId}
    (hname : nameId < b.core.nameInterning.size) (priority : ℤ) (object : Addr) :
    ((b.core.bindSingletonStarted type nameId priority object).failure ≠ none ∧
      Grown P b (b.withCore (b.core.bindSingletonStarted type nameId priority object).state) []) ∨
    ((b.core.bindSingletonStarted type nameId priority object).failure = none ∧
      Grown P b (b.withCore (b.core.bindSingletonStarted type nameId priority object).state)
        [Registry.boundEntry type.name (b.core.nameInterning.nameOf nameId) priority
          .singleton]) := by
  have hsession : b.core.sessionType type = b.core.adoptType type := if_pos hstarted
  obtain ⟨htypes, htext⟩ := h.sessionType htype
  have hlt := (h.interned.indexed.sessionType type).2
  rw [hsession] at htypes htext hlt
  simp only [Registry.bindSingletonStarted]
  split_ifs with hexists
  · exact .inl ⟨(by rintro ⟨⟩), htypes⟩
  · -- The store of the singletons is no part of the view.
    have hstored : Grown P b (b.withCore
        ((b.core.withTypes (b.core.adoptType type).2).growSingletons object)) [] :=
      ⟨⟨htypes.interned.indexed, htypes.interned.named, htypes.interned.pending⟩, htypes.tracks,
        ⟨htypes.larger.types, htypes.larger.names, htypes.larger.typesSize,
          htypes.larger.namesSize⟩,
        htypes.entries, htypes.tables, rfl, rfl, rfl, rfl, fun _ => rfl, htypes.flushed⟩
    have hcandidate := (h.grown hstored).candidate (d := Registry.boundDescriptor
      (b.core.withTypes (b.core.adoptType type).2) (b.core.adoptType type).1 nameId priority
        .singleton) hlt hname (.inl rfl)
    have hentry : (b.withCore ((b.core.withTypes (b.core.adoptType type).2).growSingletons
        object)).core.entryOf (Registry.boundDescriptor
          (b.core.withTypes (b.core.adoptType type).2) (b.core.adoptType type).1 nameId priority
          .singleton) =
        Registry.boundEntry type.name (b.core.nameInterning.nameOf nameId) priority .singleton :=
      congrArg (fun text => Registry.boundEntry text _ _ _) htext
    rw [hentry] at hcandidate
    exact .inr ⟨rfl, hstored.trans hcandidate⟩

theorem bindSingleton_effect (h : b.Tables P) {type : CppType} {name : String} {priority : ℤ}
    {object : Addr} (htyped : (Call.bindSingleton type name priority object).Typed P) :
    Effect P b (.bindSingleton type name priority object)
      (b.bindSingleton type name priority object) := by
  have hnames := h.internName name
  have htables := h.grown hnames
  have hlt := NameInterning.intern_lt h.interned.indexed.names name
  have hname := NameInterning.nameOf_intern_self h.interned.indexed.names name
  simp only [bindSingleton, Registry.bindSingleton]
  -- The binding is refused, goes into a started registry, or waits for the start.
  split_ifs with hcontext hstarted
  · exact h.refused hnames
  · have hview : b.view.started = true := hstarted
    rcases bindSingletonStarted_grown htables hstarted htyped hlt priority object with
      ⟨hfail, hgrown⟩ | ⟨hok, hgrown⟩
    · obtain ⟨hfinal, hsame⟩ := h.refused (hnames.trans hgrown)
      exact .of_fail hfail hfinal hsame
    · have hfinal := hnames.trans hgrown
      refine .of_ok hok rfl (h.grown hfinal) ((h.view_grown hfinal).trans ?_)
      rw [View.after_bindSingleton_of_started hview]
      exact congrArg (fun text => b.view.addEntries {Registry.boundEntry type.name text _ _}) hname
  · unfold Registry.bindSingletonPending
    split_ifs
    · exact h.refused hnames
    · refine ⟨⟨⟨htables.interned.indexed, htables.interned.named, fun pb hpb => ?_⟩, htables.tracks,
        htables.contributed, fun pb hpb => ?_, htables.defaultsNamed, htables.defaultsSized,
        htables.scopeSized, htables.unmerged, htables.flushed⟩, ?_⟩
      · rcases List.mem_append.mp hpb with hpb | hpb
        · exact htables.interned.pending pb hpb
        · rw [List.mem_singleton.mp hpb]
          exact hlt
      · rcases List.mem_append.mp hpb with hpb | hpb
        · exact htables.pendingTypes pb hpb
        · rw [List.mem_singleton.mp hpb]
          exact htyped
      · have hsame := (h.refused hnames).2
        have hview : b.view.started = false := Bool.eq_false_of_not_eq_true hstarted
        refine Eq.trans ?_ (View.after_bindSingleton_of_not_started hview).symm
        rw [← hsame]
        refine congrArg (fun l : List Entry => { (b.withCore (b.core.withNames
          (b.core.nameInterning.intern name).2)).view with singletons := l }) ?_
        refine List.map_append.trans (congrArg (fun e => _ ++ [e]) ?_)
        exact congrArg (fun text => Registry.boundEntry type.name text priority .singleton) hname

/-! ## Session bindings -/

/-- A started registry has an earlier session binding of a key to use again exactly if its entry
    is there. -/
theorem Tables.reusableSession_eq_none_iff (h : b.Tables P) (hstarted : b.core.started = true)
    {typeId : TypeId} (htype : typeId < b.core.typeInterning.size) {nameId : NameId}
    (hname : nameId < b.core.nameInterning.size) (priority : ℤ) :
    b.core.reusableSession typeId nameId priority = none ↔
      Registry.boundEntry (b.core.typeInterning.nameOf typeId) (b.core.nameInterning.nameOf nameId)
        priority .session ∉ b.core.entries := by
  have hinterned := h.interned
  -- The candidates of a key are the descriptors with this key.
  have hcandidates : ∀ id, id ∈ (b.core.typeIndex.candidatesFor typeId nameId).getD [] ↔
      ∃ d, b.core.descriptors[id]? = some d ∧ d.exposedType = typeId ∧ d.name = nameId := by
    intro id
    rw [← mem_keyIds, ← (hinterned.indexed.inserted typeId nameId).mem_iff, TypeIndex.inserted,
      TypeIndex.pendingFor, h.flushed hstarted]
    simp
  rw [Registry.reusableSession, if_pos hstarted, List.find?_eq_none, ← not_iff_not]
  push Not
  -- The search compares priority, lifetime and origin, which is the entry up to its key.
  constructor
  · rintro ⟨id, hid, hmatch⟩
    obtain ⟨d, hd, rfl, rfl⟩ := (hcandidates id).mp hid
    simp only [hd, Option.any_some, Bool.and_eq_true, beq_iff_eq] at hmatch
    obtain ⟨⟨horigin, hlifetime⟩, hpriority⟩ := hmatch
    refine List.mem_map.mpr ⟨d, List.mem_of_getElem? hd, ?_⟩
    rw [Registry.entryOf, horigin, hlifetime, hpriority, Registry.boundEntry]
  · intro hmem
    obtain ⟨d, hd, heq⟩ := List.mem_map.mp hmem
    obtain ⟨htypes, hnames, hpriority, hlifetime, horigin⟩ := Entry.mk.injEq .. ▸ heq
    obtain ⟨id, hid⟩ := List.mem_iff_getElem?.mp hd
    refine ⟨id, (hcandidates id).mpr ⟨d, hid, ?_, ?_⟩, ?_⟩
    · exact TypeInterning.nameOf_injective hinterned.indexed.types (hinterned.indexed.exposed d hd)
        htype htypes
    · exact NameInterning.nameOf_injective hinterned.indexed.names
        (hinterned.named d hd) hname hnames
    · simp [hid, hpriority, hlifetime, horigin]

theorem placeSession_scopes (scope : ScopeId) (descId : DescriptorId) (object : Addr)
    (sc : ScopeId) :
    ((b.placeSession scope descId object).state.scopes sc).scopedDefaults =
        (b.scopes sc).scopedDefaults ∧
      ((b.placeSession scope descId object).state.scopes sc).scopeState =
        (b.scopes sc).scopeState := by
  have hset : ∀ sc' : ScopedContext, sc'.scopedDefaults = (b.scopes scope).scopedDefaults →
      sc'.scopeState = (b.scopes scope).scopeState →
      ((b.setScope scope sc').scopes sc).scopedDefaults = (b.scopes sc).scopedDefaults ∧
        ((b.setScope scope sc').scopes sc).scopeState = (b.scopes sc).scopeState := by
    intro sc' hdefaults hstate
    by_cases hsc : sc = scope
    · subst hsc
      simp [setScope, hdefaults, hstate]
    · simp [setScope, hsc]
  simp only [placeSession]
  split_ifs
  · exact ⟨rfl, rfl⟩
  · exact hset _ rfl rfl
  · exact ⟨rfl, rfl⟩
  · exact hset _ rfl rfl

/-- The names of a session binding. -/
theorem Tables.internSession (h : b.Tables P) {type : CppType} (htype : type ∈ P.types)
    (name : String) : Grown P b (b.withCore (b.core.internSession type name)) [] ∧
      (b.core.internSession type name).typeInterning.nameOf (b.core.sessionType type).1 =
        type.name ∧
      (b.core.internSession type name).nameInterning.nameOf (b.core.nameInterning.intern name).1 =
        name := by
  obtain ⟨htypes, htext⟩ := h.sessionType htype
  exact ⟨htypes.trans ((h.grown htypes).internName name), htext,
    NameInterning.nameOf_intern_self h.interned.indexed.names name⟩

/-- A session descriptor that is not there yet. -/
theorem Tables.appendSession (h : b.Tables P) {typeId : TypeId}
    (htype : typeId < b.core.typeInterning.size) {nameId : NameId}
    (hname : nameId < b.core.nameInterning.size) (priority : ℤ) :
    Grown P b (b.withCore (b.core.appendSession typeId nameId priority))
      [Registry.boundEntry (b.core.typeInterning.nameOf typeId)
        (b.core.nameInterning.nameOf nameId) priority .session] := by
  simp only [Registry.appendSession]
  split_ifs with hstarted
  · have hslot : Grown P b (b.withCore b.core.nextSessionSlot) [] := by
      have hrefl := h.grown_refl
      exact ⟨⟨hrefl.interned.indexed, hrefl.interned.named, hrefl.interned.pending⟩, hrefl.tracks,
        ⟨fun _ _ => rfl, fun _ _ => rfl, le_rfl, le_rfl⟩, hrefl.entries, by
          funext scope
          cases scope <;> rfl, rfl, rfl, rfl, rfl, fun _ => rfl, hrefl.flushed⟩
    exact hslot.trans ((h.grown hslot).candidate (d := { b.core.boundDescriptor typeId nameId
      priority .session with sessionSlot := some b.core.sessionSlotCount }) htype hname (.inl rfl))
  · exact h.candidate htype hname (.inr ⟨Bool.eq_false_of_not_eq_true hstarted, rfl⟩)

theorem bindSession_effect (h : b.Tables P) (hslotted : b.Slotted) {scope : ScopeId}
    {type : CppType} {name : String} {priority : ℤ} {object : Addr}
    (htyped : (Call.bindSession scope type name priority object).Typed P) :
    Effect P b (.bindSession scope type name priority object)
      (b.bindSession scope type name priority object) := by
  obtain ⟨hgrown, htext, hname⟩ := h.internSession htyped name
  have htables := h.grown hgrown
  have hinterned : (b.withCore (b.core.internSession type name)).Slotted :=
    hslotted.withCore hslotted.below le_rfl le_rfl id
  have htypelt := (h.interned.indexed.sessionType type).2
  have hnamelt := NameInterning.intern_lt h.interned.indexed.names name
  have hrefused := h.refused hgrown
  have hentry : Registry.boundEntry ((b.core.internSession type name).typeInterning.nameOf
      (b.core.sessionType type).1) ((b.core.internSession type name).nameInterning.nameOf
        (b.core.nameInterning.intern name).1) priority .session =
      Registry.boundEntry type.name name priority .session := by rw [htext, hname]
  simp only [bindSession]
  split_ifs with hcontext hpending
  · exact .of_fail (by rintro ⟨⟩) h (View.after_bindSession_of_old (.inl rfl)).symm
  · exact .of_fail (by rintro ⟨⟩) hrefused.1
      (hrefused.2.trans (View.after_bindSession_of_old (.inl rfl)).symm)
  · unfold Registry.sessionDescriptor
    split
    · -- The descriptor of an earlier binding: the entry is there already.
      next id hid =>
      have hstarted : b.core.started = true := by
        by_contra hnot
        have hnone : (b.withCore (b.core.internSession type name)).core.reusableSession
            (b.core.sessionType type).1 (b.core.nameInterning.intern name).1 priority = none :=
          if_neg hnot
        rw [hnone] at hid
        cases hid
      have hmem : Registry.boundEntry type.name name priority .session ∈ b.view.bag := by
        by_contra hnot
        rw [← hrefused.2, ← hentry] at hnot
        rw [(htables.reusableSession_eq_none_iff hstarted htypelt hnamelt priority).mpr
          hnot] at hid
        cases hid
      have hplaced := hgrown.withScopes (c := ((b.withCore (b.core.internSession type
        name)).placeSession scope id object).state) (placeSession_core scope id object)
        (placeSession_scopes scope id object)
      obtain ⟨hfinal, hsame⟩ := h.refused hplaced
      exact ⟨hfinal, hsame.trans (View.after_bindSession_of_old (.inr ⟨hstarted, hmem⟩)).symm⟩
    · next hnone =>
      have hok := placeSession_new hinterned scope (b.core.sessionType type).1
        (b.core.nameInterning.intern name).1 priority object
      have happend := hgrown.trans (htables.appendSession htypelt hnamelt priority)
      have hplaced := happend.withScopes (c := (((b.withCore (b.core.internSession type
        name)).withCore ((b.core.internSession type name).appendSession (b.core.sessionType type).1
          (b.core.nameInterning.intern name).1 priority)).placeSession scope
            (b.core.internSession type name).descriptors.length object).state)
        (placeSession_core scope _ object) (placeSession_scopes scope _ object)
      refine .of_ok hok rfl (h.grown hplaced) ((h.view_grown hplaced).trans ?_)
      have hnew : ¬(b.view.started = true ∧
          Registry.boundEntry type.name name priority .session ∈ b.view.bag) := by
        rintro ⟨hstarted, hmem⟩
        rw [← hrefused.2, ← hentry] at hmem
        exact (htables.reusableSession_eq_none_iff hstarted htypelt hnamelt priority).mp hnone hmem
      rw [View.after_bindSession_of_new hnew]
      exact congrArg (fun e => b.view.addEntries {e}) hentry

/-! ## Default names -/

theorem getDefault_setDefault {t : DefaultsTable} {typeId : TypeId} (hlt : typeId < t.size)
    (nameId : NameId) (typeId' : TypeId) :
    (t.setDefault typeId nameId).getDefault typeId' =
      if typeId' = typeId then nameId else t.getDefault typeId' := by
  have hsize : (t.setDefault typeId nameId).size = t.size := rfl
  unfold DefaultsTable.getDefault
  rw [hsize]
  by_cases htype : typeId' = typeId
  · subst htype
    simp [DefaultsTable.setDefault, Nat.not_le_of_lt hlt]
  · simp [DefaultsTable.setDefault, htype]

/-- One default name is set, in tables that are otherwise the same. -/
structure DefaultSet (b b' : BeanContext) (scope : Option ScopeId) (typeId : TypeId)
    (nameId : NameId) : Prop where
  core : b'.core = b.core ∨ b'.core = b.core.setDefault typeId nameId
  table : ∀ scope' typeId', (b'.defaultsTable scope').getDefault typeId' =
    if scope' = scope ∧ typeId' = typeId then nameId
    else (b.defaultsTable scope').getDefault typeId'
  sizes : ∀ sc, (b'.scopes sc).scopedDefaults.size = (b.scopes sc).scopedDefaults.size ∨
    (b'.scopes sc).scopedDefaults.size = b.core.defaults.size
  states : ∀ sc, (b'.scopes sc).scopeState = (b.scopes sc).scopeState

theorem Tables.defaultSet_tables (h : b.Tables P) (hstarted : b.core.started = true)
    {scope : Option ScopeId} {typeId : TypeId} {nameId : NameId}
    (hname : nameId < b.core.nameInterning.size) (hset : DefaultSet b b' scope typeId nameId) :
    b'.Tables P := by
  have hnamed : ∀ scope' typeId', (b'.defaultsTable scope').getDefault typeId' <
      b.core.nameInterning.size := by
    intro scope' typeId'
    rw [hset.table]
    split_ifs
    · exact hname
    · exact h.defaultsNamed scope' typeId'
  have hsized : ∀ sc, (b'.scopes sc).scopedDefaults.size = 0 ∨
      b.core.started = true ∧ (b'.scopes sc).scopedDefaults.size = b.core.defaults.size := by
    intro sc
    rcases hset.sizes sc with hsame | hnew
    · rw [hsame]
      exact h.scopeSized sc
    · exact .inr ⟨hstarted, hnew⟩
  obtain ⟨self, core, scopes⟩ := b'
  have hinterned := h.interned
  rcases hset.core with rfl | rfl
  · exact ⟨hinterned, h.tracks, h.contributed, h.pendingTypes, hnamed, h.defaultsSized, hsized,
      h.unmerged, h.flushed⟩
  · exact ⟨⟨hinterned.indexed, hinterned.named, hinterned.pending⟩, h.tracks, h.contributed,
      h.pendingTypes, hnamed, h.defaultsSized, hsized, h.unmerged, h.flushed⟩

theorem Tables.defaultSet_view (h : b.Tables P) {scope : Option ScopeId} {typeId : TypeId}
    {nameId : NameId} (htype : typeId < b.core.typeInterning.size)
    (hset : DefaultSet b b' scope typeId nameId) :
    b'.view = b.view.setDefault scope (b.core.typeInterning.nameOf typeId)
      (b.core.nameInterning.nameOf nameId) := by
  have hti := h.interned.indexed.types
  have hself := (TypeInterning.idOf_eq_some_iff hti).mpr ⟨htype, rfl⟩
  have htable := hset.table
  have hstates : (fun sc => (b'.scopes sc).scopeState) = fun sc => (b.scopes sc).scopeState :=
    funext hset.states
  have htypes : b'.core.typeInterning = b.core.typeInterning := by
    rcases hset.core with hcore | hcore <;> simp [hcore, Registry.setDefault]
  have hnames : b'.core.nameInterning = b.core.nameInterning := by
    rcases hset.core with hcore | hcore <;> simp [hcore, Registry.setDefault]
  have htext : b'.defaultText = Function.update b.defaultText scope (Function.update
      (b.defaultText scope) (b.core.typeInterning.nameOf typeId)
      (b.core.nameInterning.nameOf nameId)) := by
    -- Only the text for this scope and this type changes.
    funext scope' typeName
    unfold defaultText
    rw [htypes, hnames]
    by_cases hscope : scope' = scope
    · subst hscope
      rw [Function.update_self]
      by_cases hname : typeName = b.core.typeInterning.nameOf typeId
      · subst hname
        rw [Function.update_self, hself]
        simp [htable]
      · rw [Function.update_of_ne hname]
        cases hid : b.core.typeInterning.idOf typeName with
        | none => rfl
        | some typeId' =>
          have hne : typeId' ≠ typeId := by
            rintro rfl
            exact hname ((TypeInterning.idOf_eq_some_iff hti).mp hid).2.symm
          simp [htable, hne]
    · rw [Function.update_of_ne hscope]
      simp [htable, hscope]
  obtain ⟨self, core, scopes⟩ := b'
  rcases hset.core with rfl | rfl
  · simp only [view, View.setDefault, htext, hstates]
  · simp only [view, View.setDefault, htext, hstates]
    rfl

theorem defaultSet_root {typeId : TypeId} (hlt : typeId < b.core.defaults.size) (nameId : NameId) :
    DefaultSet b (b.withCore (b.core.setDefault typeId nameId)) none typeId nameId := by
  refine ⟨.inr rfl, fun scope' typeId' => ?_, fun _ => .inl rfl, fun _ => rfl⟩
  cases scope' with
  | none =>
    have hget := getDefault_setDefault hlt nameId typeId'
    simpa [defaultsTable, withCore, Registry.setDefault] using hget
  | some sc => simp [defaultsTable, withCore]

theorem defaultSet_scope {sc : ScopeId} {typeId : TypeId} {nameId : NameId} {sc' : ScopedContext}
    (htable : ∀ typeId', sc'.scopedDefaults.getDefault typeId' =
      if typeId' = typeId then nameId else (b.scopes sc).scopedDefaults.getDefault typeId')
    (hsize : sc'.scopedDefaults.size = (b.scopes sc).scopedDefaults.size ∨
      sc'.scopedDefaults.size = b.core.defaults.size)
    (hstate : sc'.scopeState = (b.scopes sc).scopeState) :
    DefaultSet b (b.setScope sc sc') (some sc) typeId nameId := by
  refine ⟨.inl rfl, fun scope' typeId' => ?_, fun sc'' => ?_, fun sc'' => ?_⟩
  · cases scope' with
    | none => simp [defaultsTable, setScope]
    | some sc'' =>
      by_cases hsc : sc'' = sc
      · subst hsc
        simp [defaultsTable, setScope, htable]
      · simp [defaultsTable, setScope, hsc]
  · by_cases hsc : sc'' = sc
    · subst hsc
      simpa [setScope] using hsize
    · simp [setScope, hsc]
  · by_cases hsc : sc'' = sc
    · subst hsc
      simpa [setScope] using hstate
    · simp [setScope, hsc]

/-- A type that has room for a default name. -/
theorem Tables.slot_of_lookup (h : b.Tables P) {type : CppType} (htype : type ∈ P.types)
    {typeId : TypeId} (hslot : (b.core.typeInterning.lookupByTypeIndex type.index).filter
      (fun typeId => decide (typeId < b.core.defaults.size)) = some typeId) :
    typeId < b.core.defaults.size ∧ typeId < b.core.typeInterning.size ∧
      b.core.typeInterning.nameOf typeId = type.name ∧
      b.core.typeInterning.firstIndex type.name = some type.index := by
  obtain ⟨hlookup, hlt⟩ := Option.filter_eq_some_iff.mp hslot
  have hfound := (h.tracks.lookup_eq_some_iff h.interned.indexed.types htype).mp hlookup
  exact ⟨by simpa using hlt, hfound⟩

/-- A type without room for a default name has none. -/
theorem Tables.defaultText_of_no_slot (h : b.Tables P) {type : CppType} (htype : type ∈ P.types)
    (hfirst : b.core.typeInterning.firstIndex type.name = some type.index)
    (hslot : (b.core.typeInterning.lookupByTypeIndex type.index).filter
      (fun typeId => decide (typeId < b.core.defaults.size)) = none) (scope : Option ScopeId) :
    b.defaultText scope type.name = "" := by
  have hti := h.interned.indexed.types
  unfold defaultText
  cases hid : b.core.typeInterning.idOf type.name with
  | none => rfl
  | some typeId =>
    obtain ⟨hlt, hname⟩ := (TypeInterning.idOf_eq_some_iff hti).mp hid
    have hlookup := (h.tracks.lookup_eq_some_iff hti htype).mpr ⟨hlt, hname, hfirst⟩
    have hle : b.core.defaults.size ≤ typeId := by
      rw [hlookup] at hslot
      simpa [Option.filter] using hslot
    have hsize : (b.defaultsTable scope).size ≤ typeId := by
      cases scope with
      | none => exact hle
      | some sc =>
        rcases h.scopeSized sc with hzero | ⟨-, heq⟩
        · exact (Nat.le_of_eq hzero).trans (Nat.zero_le _)
        · exact (Nat.le_of_eq heq).trans hle
    simp only [getDefault_eq_kUnnamed hsize]
    exact NameInterning.nameOf_kUnnamed h.interned.indexed.names

theorem defaultNamed_effect (h : b.Tables P) {scope : Option ScopeId} {type : CppType}
    {name : String} (htyped : (Call.defaultNamed scope type name).Typed P) :
    Effect P b (.defaultNamed scope type name) (b.defaultNamed scope type name) := by
  have hnames := h.internName name
  have htables := h.grown hnames
  have hsame := (h.refused hnames).2
  have hlt := NameInterning.intern_lt h.interned.indexed.names name
  have hname := NameInterning.nameOf_intern_self h.interned.indexed.names name
  simp only [defaultNamed]
  split_ifs with hstarted hempty
  · exact .of_fail (by rintro ⟨⟩) h rfl
  · exact .of_fail (by rintro ⟨⟩) h rfl
  · have hs : b.core.started = true := by simpa using hstarted
    split
    · exact .of_fail (by rintro ⟨⟩) h rfl
    · next typeId hslot =>
      obtain ⟨hroom, htypelt, htext, -⟩ := h.slot_of_lookup htyped hslot
      have hview : ∀ b' : BeanContext, DefaultSet
          (b.withCore (b.core.withNames (b.core.nameInterning.intern name).2)) b' scope typeId
            (b.core.nameInterning.intern name).1 →
          Effect P b (.defaultNamed scope type name) (.ok b') := by
        intro b' hset
        refine .of_ok rfl rfl (htables.defaultSet_tables hs hlt hset) ?_
        refine (htables.defaultSet_view htypelt hset).trans ?_
        rw [hsame]
        exact congrArg₂ (b.view.setDefault scope) htext hname
      split
      · exact hview _ (defaultSet_root (b := b.withCore (b.core.withNames
          (b.core.nameInterning.intern name).2)) hroom _)
      · next sc =>
        refine hview _ (defaultSet_scope (fun typeId' => ?_) ?_ rfl)
        · -- The table of the scope is made when its first default is set.
          by_cases hzero : (b.scopes sc).scopedDefaults.size = 0
          · have hset := getDefault_setDefault (t := DefaultsTable.resize b.core.defaults.size)
              hroom (b.core.nameInterning.intern name).1 typeId'
            have hnone : (b.scopes sc).scopedDefaults.getDefault typeId' = kUnnamed :=
              getDefault_eq_kUnnamed (hzero ▸ Nat.zero_le _)
            have hfresh : (DefaultsTable.resize b.core.defaults.size).getDefault typeId' =
                kUnnamed := ite_self _
            simp only [withCore, Registry.withNames, hzero, if_true, hset, hnone, hfresh]
          · have hsize := (h.scopeSized sc).resolve_left hzero
            have hset := getDefault_setDefault (t := (b.scopes sc).scopedDefaults)
              (hsize.2 ▸ hroom) (b.core.nameInterning.intern name).1 typeId'
            simp only [withCore, hzero, if_false, hset]
        · by_cases hzero : (b.scopes sc).scopedDefaults.size = 0
          · right
            simp [withCore, Registry.withNames, hzero, DefaultsTable.setDefault,
              DefaultsTable.resize]
          · left
            simp [withCore, hzero, DefaultsTable.setDefault]

theorem View.setDefault_of_eq {v : View} {scope : Option ScopeId} {typeName name : String}
    (h : v.defaults scope typeName = name) : v.setDefault scope typeName name = v := by
  rw [View.setDefault, ← h, Function.update_eq_self, Function.update_eq_self]

theorem clearDefaultNamed_effect (h : b.Tables P) {scope : Option ScopeId} {type : CppType}
    (htyped : (Call.clearDefaultNamed scope type).Typed P) :
    Effect P b (.clearDefaultNamed scope type) (b.clearDefaultNamed scope type) := by
  have hunnamed := NameInterning.kUnnamed_lt h.interned.indexed.names
  simp only [clearDefaultNamed]
  split_ifs with hstarted
  · exact .of_fail (by rintro ⟨⟩) h rfl
  · have hs : b.core.started = true := by simpa using hstarted
    have hkept : (b.core.typeInterning.firstIndex type.name = some type.index →
        b.defaultText scope type.name = "") →
        Effect P b (.clearDefaultNamed scope type) (.ok b) := by
      refine fun htext => ⟨h, ?_⟩
      cases hfinds : b.finds (.clearDefaultNamed scope type) with
      | false => rfl
      | true => exact (View.setDefault_of_eq (htext (beq_iff_eq.mp hfinds))).symm
    -- Without a slot there is no default to clear.
    split
    · next hslot =>
      exact hkept fun hfirst => h.defaultText_of_no_slot htyped hfirst hslot scope
    · next typeId hslot =>
      obtain ⟨hroom, htypelt, htext, hfirst⟩ := h.slot_of_lookup htyped hslot
      have hview : ∀ b' : BeanContext, DefaultSet b b' scope typeId kUnnamed →
          Effect P b (.clearDefaultNamed scope type) (.ok b') := by
        intro b' hset
        refine .of_ok rfl (beq_iff_eq.mpr hfirst) (h.defaultSet_tables hs hunnamed hset) ?_
        refine (h.defaultSet_view htypelt hset).trans ?_
        exact congrArg₂ (b.view.setDefault scope) htext
          (NameInterning.nameOf_kUnnamed h.interned.indexed.names)
      split
      · exact hview _ (defaultSet_root hroom _)
      · next sc =>
        -- The table of the scope may still be empty, so that nothing has been set.
        split_ifs with hzero
        · refine hkept fun _ => ?_
          have hnone : (b.defaultsTable (some sc)).getDefault typeId = kUnnamed :=
            getDefault_eq_kUnnamed ((Nat.le_of_eq hzero).trans (Nat.zero_le _))
          have hid := (TypeInterning.idOf_eq_some_iff h.interned.indexed.types).mpr
            ⟨htypelt, htext⟩
          simp only [defaultText, hid, hnone]
          exact NameInterning.nameOf_kUnnamed h.interned.indexed.names
        · have hsize := (h.scopeSized sc).resolve_left hzero
          exact hview _ (defaultSet_scope (getDefault_setDefault (hsize.2 ▸ hroom) kUnnamed)
            (.inl rfl) rfl)

/-! ## Scopes -/

/-- A change of the scopes that keeps their default names. -/
theorem Tables.withStates {c : BeanContext} (h : b.Tables P) (hcore : c.core = b.core)
    (hsame : SameDefaults b c) :
    c.Tables P ∧ c.view = { b.view with
      scopeStates := fun sc => (c.scopes sc).scopeState } := by
  obtain ⟨self, core, scopes⟩ := c
  obtain rfl : core = b.core := hcore
  have htables : ({ self := self, core := b.core, scopes := scopes } : BeanContext).defaultsTable =
      b.defaultsTable := by
    funext scope
    cases scope with
    | none => rfl
    | some sc => exact (hsame sc).2
  have htext := h.defaultText_eq (c := { self := self, core := b.core, scopes := scopes })
    (.refl _) h.interned.indexed htables
  refine ⟨⟨h.interned, h.tracks, h.contributed, h.pendingTypes, ?_, h.defaultsSized, fun sc => ?_,
    h.unmerged, h.flushed⟩, ?_⟩
  · rw [htables]
    exact h.defaultsNamed
  · rw [(hsame sc).2]
    exact h.scopeSized sc
  · simp only [view, htext]

theorem scopeStates_setScope (scope : ScopeId) (sc : ScopedContext) :
    (fun sc' => ((b.setScope scope sc).scopes sc').scopeState) =
      Function.update (fun sc' => (b.scopes sc').scopeState) scope sc.scopeState := by
  funext sc'
  by_cases hsc : sc' = scope
  · subst hsc
    simp [setScope]
  · simp [setScope, hsc]

theorem startScope_effect (h : b.Tables P) (scope : ScopeId) :
    Effect P b (.startScope scope) (b.startScope scope) := by
  simp only [startScope]
  split_ifs
  · exact .of_fail (by rintro ⟨⟩) h rfl
  · split
    · next hrunning =>
      have hsame : Function.update b.view.scopeStates scope .running = b.view.scopeStates :=
        Function.update_eq_self_iff.mpr hrunning.symm
      refine .of_ok rfl rfl h ?_
      simp only [View.after, if_true, View.setState, hsame]
      rfl
    · exact .of_fail (by rintro ⟨⟩) h rfl
    · obtain ⟨htables, hview⟩ := h.withStates (c := b.runScopeStart scope) rfl
        (runScopeStart_sameDefaults b scope)
      refine .of_ok rfl rfl htables (hview.trans ?_)
      exact congrArg (fun f => { b.view with scopeStates := f }) (scopeStates_setScope scope _)

theorem runScopeStop_view (h : b.Tables P) (scope : ScopeId) (deferDeallocation : Bool) :
    (b.runScopeStop scope deferDeallocation).Tables P ∧
      (b.runScopeStop scope deferDeallocation).view = b.view.setState scope .stopped := by
  obtain ⟨htables, hview⟩ := h.withStates (c := b.runScopeStop scope deferDeallocation) rfl
    (runScopeStop_sameDefaults b scope deferDeallocation)
  refine ⟨htables, hview.trans ?_⟩
  exact congrArg (fun f => { b.view with scopeStates := f }) (scopeStates_setScope scope _)

theorem stopScope_view (h : b.Tables P) (scope : ScopeId) :
    (b.stopScope scope).Tables P ∧ (b.stopScope scope).view = b.view.afterStop scope := by
  unfold stopScope View.afterStop
  by_cases hrunning : (b.scopes scope).scopeState = .running
  · have hview : b.view.scopeStates scope = .running := hrunning
    rw [if_pos hrunning, if_pos hview]
    exact runScopeStop_view h scope false
  · have hview : ¬b.view.scopeStates scope = .running := hrunning
    rw [if_neg hrunning, if_neg hview]
    exact ⟨h, rfl⟩

theorem restartScope_effect (h : b.Tables P) (scope : ScopeId) :
    Effect P b (.restartScope scope) (b.restartScope scope) := by
  have hstart : ∀ b' : BeanContext, b'.Tables P ∧ b'.view = b.view.afterStop scope →
      Effect P b (.restartScope scope) (b'.startScope scope) := by
    rintro b' ⟨htables, hview⟩
    obtain ⟨hfinal, hafter⟩ := startScope_effect htables scope
    refine ⟨hfinal, hafter.trans ?_⟩
    rw [hview]
    simp only [View.after, finds, Bool.and_true]
    split_ifs
    · unfold View.afterStop View.setState
      split_ifs <;> simp
    · rfl
  unfold restartScope
  split_ifs with hrunning
  · refine hstart _ ?_
    have hview : b.view.scopeStates scope = .running := hrunning
    rw [View.afterStop, if_pos hview]
    exact runScopeStop_view h scope true
  · exact hstart _ (stopScope_view h scope)

/-! ## The start -/

/-- The registry during the merge has interned types of the program only. -/
def TypedState (P : ProgramTypes) (s : Registry.StartState) : Prop :=
  s.registry.Indexed ∧ s.registry.typeInterning.Tracks P

theorem TypedState.mergeContribution {s : Registry.StartState} (h : TypedState P s)
    {cd : ContributedDescriptor} (hcd : cd.exposedType ∈ P.types ∧ cd.concreteType ∈ P.types) :
    TypedState P (Registry.mergeContribution s cd).state := by
  refine ⟨h.1.mergeContribution cd, ?_⟩
  unfold Registry.mergeContribution
  split
  · exact (h.2.internByName h.1.types hcd.1).internByName (h.1.types.internByName _) hcd.2
  · split
    · split <;> exact h.2
    · exact h.2

theorem TypedState.mergePendingSingleton {s : Registry.StartState} (h : TypedState P s)
    {pb : PendingRuntimeSingleton} (hpb : pb.type ∈ P.types) :
    TypedState P (Registry.mergePendingSingleton s pb).state := by
  refine ⟨h.1.mergePendingSingleton pb, ?_⟩
  simp only [Registry.mergePendingSingleton]
  split_ifs <;> exact h.2.internByName h.1.types hpb

theorem TypedState.linkAll {s : Registry.StartState} (h : TypedState P s) :
    TypedState P (Registry.linkAll s).state := by
  refine ⟨h.1.linkAll, ?_⟩
  rw [(Registry.linkAll_entries s).2.1]
  exact h.2

theorem Tables.mergeAndLink (h : b.Tables P) :
    TypedState P (Registry.mergeAndLink { registry := b.core }).state := by
  have hpending := Registry.forEach_mergeContribution_pendingRuntimeSingletons b.core.pending
    { registry := b.core }
  refine andThen_invariant (P := TypedState P) ?_ fun s hs => hs.linkAll
  have hmerged : TypedState P
      (forEach Registry.mergeContribution b.core.pending { registry := b.core }).state :=
    forEach_invariant (P := TypedState P)
      (fun s cd hcd hs => hs.mergeContribution (h.contributed cd hcd))
      ⟨h.interned.indexed, h.tracks⟩
  unfold Registry.mergeAll
  cases hfail : (forEach Registry.mergeContribution b.core.pending
    { registry := b.core }).failure with
  | some e =>
    rw [andThen_of_fail hfail]
    exact hmerged
  | none =>
    rw [andThen_of_ok hfail]
    refine forEach_invariant (P := TypedState P) (fun s pb hpb hs => ?_) hmerged
    rw [hpending] at hpb
    exact hs.mergePendingSingleton (h.pendingTypes pb hpb)

/-- Without default names, all their texts are empty. -/
theorem defaultText_eq_empty (hnames : b.core.nameInterning.Valid)
    (hunnamed : ∀ scope typeId, (b.defaultsTable scope).getDefault typeId = kUnnamed) :
    b.defaultText = fun _ _ => "" := by
  funext scope typeName
  unfold defaultText
  split
  · rfl
  · rw [hunnamed]
    exact NameInterning.nameOf_kUnnamed hnames

/-- Before the start there are no default names. -/
theorem Tables.getDefault_of_not_started (h : b.Tables P) (hnot : b.core.started = false)
    (scope : Option ScopeId) (typeId : TypeId) :
    (b.defaultsTable scope).getDefault typeId = kUnnamed := by
  refine getDefault_eq_kUnnamed ?_
  cases scope with
  | none => exact (Nat.le_of_eq (h.unmerged hnot).2).trans (Nat.zero_le _)
  | some sc =>
    rcases h.scopeSized sc with hzero | ⟨hs, -⟩
    · exact (Nat.le_of_eq hzero).trans (Nat.zero_le _)
    · rw [hnot] at hs
      cases hs

/-- A start that succeeds for the first time. -/
theorem start_effect_of_ok (h : b.Tables P) (hnot : b.core.started = false)
    (hok : b.start.failure = none) : Effect P b .start b.start := by
  have hid := (h.unmerged hnot).1
  obtain ⟨hinterned, hentries, -⟩ := Registry.start_entries h.interned hnot hid b.self
  obtain ⟨hindexed, htracks⟩ := h.mergeAndLink
  have hframe := (Registry.Frame.refl b.core).mergeAndLink (s := { registry := b.core })
  have hpending := Registry.mergeAndLink_pendingRuntimeSingletons { registry := b.core }
  rcases Registry.start_cases b.core b.self with ⟨hs, -⟩ | ⟨_, -, hsome, -⟩ | ⟨-, -, heq⟩
  · rw [hnot] at hs
    cases hs
  · rw [hid] at hsome
    cases hsome
  -- The start merges, so its state is the one at the end of the merge.
  · have hmerge : (Registry.merge { registry := b.core } b.self).failure = none := by
      simpa only [BeanContext.start, heq] using hok
    obtain ⟨hlink, -, -, hstate⟩ := Registry.merge_of_ok hmerge
    rw [if_pos (andThen_failure_eq_none.mp hlink).1] at hpending
    have hcore : (b.core.start b.self).state = (Registry.finishStart (Registry.sortState
        (Registry.mergeAndLink { registry := b.core }).state) b.self).registry := by
      rw [heq, hstate]
    have hfailure : (b.core.start b.self).failure = none := hok
    obtain ⟨-, hgrown⟩ := hentries hfailure
    rw [hcore] at hinterned hgrown
    -- No default can have been set before the first start.
    have hunnamed : ∀ scope typeId, ((b.withCore (Registry.finishStart (Registry.sortState
        (Registry.mergeAndLink { registry := b.core }).state) b.self).registry).defaultsTable
          scope).getDefault typeId = kUnnamed := by
      intro scope typeId
      cases scope with
      | none => exact ite_self _
      | some sc => exact h.getDefault_of_not_started hnot (some sc) typeId
    refine .of_ok hok rfl ?_ ?_
    · change (b.withCore (b.core.start b.self).state).Tables P
      rw [hcore]
      refine ⟨hinterned, (htracks.internByName hindexed.types P.context).freeze, ?_, ?_,
        fun scope typeId => ?_, le_rfl, fun sc => .inl ?_, (by rintro ⟨⟩), fun _ typeId => rfl⟩
      · exact hframe.pending ▸ h.contributed
      · exact hpending ▸ (by rintro _ ⟨⟩)
      · rw [hunnamed]
        exact NameInterning.kUnnamed_lt hinterned.indexed.names
      · refine (h.scopeSized sc).resolve_right fun hs => ?_
        rw [hnot] at hs
        exact absurd hs.1 (by rintro ⟨⟩)
    · change (b.withCore (b.core.start b.self).state).view = _
      rw [hcore, View.after_start_of_ok hnot, view, View.mk.injEq]
      refine ⟨?_, hframe.pending, ?_, rfl, ?_, rfl⟩
      · change ((Registry.finishStart (Registry.sortState (Registry.mergeAndLink
          { registry := b.core }).state) b.self).registry.entries : Multiset Entry) = _
        rw [hgrown, List.append_assoc b.core.entries]
        rfl
      · exact List.map_eq_nil_iff.mpr hpending
      · rw [defaultText_eq_empty hinterned.indexed.names hunnamed]
        exact (defaultText_eq_empty h.interned.indexed.names
          (h.getDefault_of_not_started hnot)).symm

/-- A start that fails keeps the tables in order. -/
theorem start_tables_of_fail (h : b.Tables P) (hfail : b.start.failure ≠ none) :
    b.start.state.Tables P ∧ (b.core.Mergeable → Effect P b .start b.start) := by
  rcases Registry.start_cases b.core b.self with ⟨-, heq⟩ | ⟨_, -, -, heq⟩ | ⟨hnot, hid, heq⟩
  · exact absurd (congrArg Attempt.failure heq) hfail
  · exact absurd (congrArg Attempt.failure heq) hfail
  · obtain ⟨hinterned, -, hentries⟩ := Registry.start_entries h.interned hnot hid b.self
    obtain ⟨hindexed, htracks⟩ := h.mergeAndLink
    have hpending := Registry.mergeAndLink_pendingRuntimeSingletons { registry := b.core }
    obtain ⟨e, he⟩ := Option.ne_none_iff_exists'.mp hfail
    -- The start has failed in the merge, whose state is what it leaves.
    have hmerge : (Registry.merge { registry := b.core } b.self).failure = some e := by
      simpa only [BeanContext.start, heq] using he
    have hframe := (Registry.Frame.refl b.core).merge_of_fail hmerge
    have hstate : (b.core.start b.self).state =
        (Registry.merge { registry := b.core } b.self).state.registry := by rw [heq]
    rw [← hstate] at hframe
    have htypes : (b.core.start b.self).state.typeInterning.Tracks P := by
      rw [hstate]
      rcases Registry.merge_of_fail hmerge with hs | hs <;> rw [hs] <;> exact htracks
    -- The bound singletons are taken out of their list as soon as all of them are merged.
    have hsingletons : (b.core.start b.self).state.pendingRuntimeSingletons =
        if (Registry.mergeAll { registry := b.core }).failure = none then []
        else b.core.pendingRuntimeSingletons := by
      rw [hstate, ← hpending]
      rcases Registry.merge_of_fail hmerge with hs | hs
      · rw [hs]
      · rw [hs]
        rfl
    have hunnamed : ∀ scope typeId, (b.start.state.defaultsTable scope).getDefault typeId =
        kUnnamed := by
      intro scope typeId
      rw [← h.getDefault_of_not_started hnot scope typeId]
      cases scope with
      | none => exact congrArg (fun dt : DefaultsTable => dt.getDefault typeId) hframe.defaults
      | some sc => rfl
    have htables : b.start.state.Tables P := by
      refine ⟨hinterned, htypes, ?_, ?_, fun scope typeId => ?_, ?_, fun sc => .inl ?_,
        fun _ => ⟨hframe.beanContextDescId.trans hid, ?_⟩, fun hs => ?_⟩
      · exact hframe.pending ▸ h.contributed
      · change ∀ pb ∈ (b.core.start b.self).state.pendingRuntimeSingletons, _
        rw [hsingletons]
        split_ifs
        · rintro _ ⟨⟩
        · exact h.pendingTypes
      · rw [hunnamed]
        exact NameInterning.kUnnamed_lt hinterned.indexed.names
      · change (b.core.start b.self).state.defaults.size ≤ _
        rw [hframe.defaults, (h.unmerged hnot).2]
        exact Nat.zero_le _
      · refine (h.scopeSized sc).resolve_right fun hs => ?_
        rw [hnot] at hs
        exact absurd hs.1 (by rintro ⟨⟩)
      · exact (congrArg DefaultsTable.size hframe.defaults).trans (h.unmerged hnot).2
      · have hstarted : (b.core.start b.self).state.started = true := hs
        rw [hframe.started, hnot] at hstarted
        cases hstarted
    refine ⟨htables, fun hmergeable => .of_fail hfail htables ?_⟩
    have hgrown := hentries hfail hmergeable
    rw [if_pos ((Registry.mergeAll_interned h.interned).2.2.2.1.mpr hmergeable)] at hsingletons
    rw [View.after_start_of_fail hnot, view, View.mk.injEq]
    refine ⟨?_, hframe.pending, List.map_eq_nil_iff.mpr hsingletons, hframe.started, ?_, rfl⟩
    · change ((b.core.start b.self).state.entries : Multiset Entry) = _
      rw [hgrown, List.append_assoc b.core.entries]
      rfl
    · rw [defaultText_eq_empty htables.interned.indexed.names hunnamed]
      exact (defaultText_eq_empty h.interned.indexed.names
        (h.getDefault_of_not_started hnot)).symm

theorem start_effect_of_started (h : b.Tables P) (hs : b.core.started = true) :
    Effect P b .start b.start := by
  have hstart : b.start = .ok b := by
    simp only [BeanContext.start, Registry.start, hs, if_true]
    rfl
  rw [hstart]
  exact .of_ok rfl rfl h (if_pos hs).symm

/-! ## The interned types stay interned -/

section Indices

variable {old : List (ℕ × TypeId)}

theorem indices_sessionType {r : Registry} (h : old ⊆ r.typeInterning.indices) (type : CppType) :
    old ⊆ (r.sessionType type).2.indices := by
  have hintern :=
    List.Subset.trans h (TypeInterning.indices_subset_internByName r.typeInterning type)
  unfold Registry.sessionType Registry.adoptType
  split_ifs
  · split
    · exact h
    · exact hintern
  · exact hintern

theorem indices_bindSingleton {r : Registry} (h : old ⊆ r.typeInterning.indices) (type : CppType)
    (nameId : NameId) (priority : ℤ) (object : Addr) :
    old ⊆ (r.bindSingleton type nameId priority object).state.typeInterning.indices := by
  unfold Registry.bindSingleton
  split_ifs with hcontext hstarted
  · exact h
  · have hadopt : old ⊆ (r.adoptType type).2.indices := by
      have hsession := indices_sessionType h type
      rwa [Registry.sessionType, if_pos hstarted] at hsession
    simp only [Registry.bindSingletonStarted]
    split_ifs <;> exact hadopt
  · unfold Registry.bindSingletonPending
    split_ifs <;> exact h

theorem indices_bindSession (h : old ⊆ b.core.typeInterning.indices) (scope : ScopeId)
    (type : CppType) (name : String) (priority : ℤ) (object : Addr) :
    old ⊆ (b.bindSession scope type name priority object).state.core.typeInterning.indices := by
  have hsession := indices_sessionType h type
  simp only [bindSession]
  split_ifs
  · exact h
  · exact hsession
  · rw [placeSession_core]
    unfold Registry.sessionDescriptor
    split
    · exact hsession
    · simp only [Registry.appendSession]
      split_ifs <;> exact hsession

theorem indices_mergeAndLink {s : Registry.StartState}
    (h : old ⊆ s.registry.typeInterning.indices) :
    old ⊆ (Registry.mergeAndLink s).state.registry.typeInterning.indices := by
  let Q := fun s : Registry.StartState => old ⊆ s.registry.typeInterning.indices
  have hintern : ∀ (ti : TypeInterning) type, old ⊆ ti.indices →
      old ⊆ (ti.internByName type).2.indices := fun ti type hti =>
    List.Subset.trans hti (TypeInterning.indices_subset_internByName ti type)
  refine andThen_invariant (P := Q) ?_ fun s hs => ?_
  · refine andThen_invariant (P := Q)
      (forEach_invariant (P := Q) (fun s cd _ hs => ?_) h) fun s hs =>
      forEach_invariant (P := Q) (fun s pb _ hs => ?_) hs
    · unfold Registry.mergeContribution
      split
      · exact hintern _ _ (hintern _ _ hs)
      · split
        · split <;> exact hs
        · exact hs
    · simp only [Registry.mergePendingSingleton]
      split_ifs <;> exact hintern _ _ hs
  · change old ⊆ _
    rw [(Registry.linkAll_entries s).2.1]
    exact hs

theorem indices_start {r : Registry} (h : old ⊆ r.typeInterning.indices) (ctx : Addr) :
    old ⊆ (r.start ctx).state.typeInterning.indices := by
  have hlinked := indices_mergeAndLink (s := { registry := r }) h
  rcases Registry.start_cases r ctx with ⟨-, heq⟩ | ⟨_, -, -, heq⟩ | ⟨-, -, heq⟩
  · rw [heq]
    exact h
  · rw [heq]
    exact h
  · rw [heq]
    change old ⊆ (Registry.merge { registry := r } ctx).state.registry.typeInterning.indices
    cases hfail : (Registry.merge { registry := r } ctx).failure with
    | none =>
      rw [(Registry.merge_of_ok hfail).2.2.2]
      exact List.Subset.trans hlinked (TypeInterning.indices_subset_internByName _ _)
    | some e => rcases Registry.merge_of_fail hfail with hs | hs <;> rw [hs] <;> exact hlinked

/-- No call takes back the index under which a name was interned. -/
theorem indices_exec (b : BeanContext) (call : Call) :
    b.core.typeInterning.indices ⊆ (b.exec call).state.core.typeInterning.indices := by
  have hself := List.Subset.refl b.core.typeInterning.indices
  have hscopes : ∀ b' : BeanContext, b'.core = b.core →
      b.core.typeInterning.indices ⊆ b'.core.typeInterning.indices := fun b' hcore =>
    hcore ▸ hself
  cases call with
  | discover cds =>
    simp only [exec, discover, Registry.submitContribution]
    split_ifs <;> exact hself
  | bindSingleton type name priority object =>
    exact indices_bindSingleton (r := b.core.withNames (b.core.nameInterning.intern name).2) hself
      type _ priority object
  | bindSession scope type name priority object =>
    exact indices_bindSession hself scope type name priority object
  | defaultNamed scope type name =>
    simp only [exec, defaultNamed]
    split_ifs <;> repeat' split
    all_goals exact hself
  | clearDefaultNamed scope type =>
    simp only [exec, clearDefaultNamed]
    split_ifs <;> repeat' split
    all_goals exact hself
  | start => exact indices_start hself b.self
  | startScope scope => exact hscopes _ (startScope_core scope)
  | stopScope scope => exact hscopes _ (stopScope_core scope)
  | restartScope scope => exact hscopes _ (restartScope_core scope)

end Indices

/-! ## All calls -/

theorem Tables.exec (h : b.Tables P) (hslotted : b.Slotted) {call : Call}
    (htyped : call.Typed P) : (b.exec call).state.Tables P ∧
      ((call = .start → b.core.started = true ∨ b.start.failure = none ∨ b.core.Mergeable) →
        (b.exec call).state.view =
          b.view.after call ((b.exec call).failure.isNone && b.finds call)) := by
  have hall : Effect P b call (b.exec call) → (b.exec call).state.Tables P ∧
      ((call = .start → b.core.started = true ∨ b.start.failure = none ∨ b.core.Mergeable) →
        (b.exec call).state.view =
          b.view.after call ((b.exec call).failure.isNone && b.finds call)) :=
    fun heffect => ⟨heffect.1, fun _ => heffect.2⟩
  -- One effect for each call; only a failed start may leave a state that is not described.
  cases call with
  | discover cds => exact hall (discover_effect h htyped)
  | bindSingleton type name priority object => exact hall (bindSingleton_effect h htyped)
  | bindSession scope type name priority object =>
    exact hall (bindSession_effect h hslotted htyped)
  | defaultNamed scope type name => exact hall (defaultNamed_effect h htyped)
  | clearDefaultNamed scope type => exact hall (clearDefaultNamed_effect h htyped)
  | start =>
    by_cases hs : b.core.started = true
    · exact hall (start_effect_of_started h hs)
    · by_cases hok : b.start.failure = none
      · exact hall (start_effect_of_ok h (Bool.eq_false_of_not_eq_true hs) hok)
      · obtain ⟨htables, heffect⟩ := start_tables_of_fail h hok
        refine ⟨htables, fun hcan => ?_⟩
        rcases hcan rfl with hstarted | hnone | hmergeable
        · exact absurd hstarted hs
        · exact absurd hnone hok
        · exact (heffect hmergeable).2
  | startScope scope => exact hall (startScope_effect h scope)
  | stopScope scope => exact hall ⟨(stopScope_view h scope).1, (stopScope_view h scope).2⟩
  | restartScope scope => exact hall (restartScope_effect h scope)

/-- A name stays with the type that was the first one interned under it. -/
theorem Tables.firstIndex_exec (h : b.Tables P) (hslotted : b.Slotted) {call : Call}
    (htyped : call.Typed P) {typeName : String} {index : ℕ}
    (hfirst : b.core.typeInterning.firstIndex typeName = some index) :
    (b.exec call).state.core.typeInterning.firstIndex typeName = some index := by
  obtain ⟨hafter, -⟩ := h.exec hslotted htyped
  exact h.tracks.firstIndex_mono h.interned.indexed.types hafter.tracks
    hafter.interned.indexed.types (indices_exec b call) hfirst

/-- The name of a type that has a default name is interned. -/
theorem Tables.firstIndex_of_default (h : b.Tables P) {scope : Option ScopeId} {typeName : String}
    (htext : b.view.defaults scope typeName ≠ "") :
    ∃ index, b.core.typeInterning.firstIndex typeName = some index := by
  have hti := h.interned.indexed.types
  simp only [view, defaultText] at htext
  cases hid : b.core.typeInterning.idOf typeName with
  | none =>
    rw [hid] at htext
    exact absurd rfl htext
  | some id =>
    obtain ⟨hlt, hname⟩ := (TypeInterning.idOf_eq_some_iff hti).mp hid
    obtain ⟨index, hmem⟩ := h.tracks.found id hlt
    exact ⟨index, (h.tracks.firstIndex_eq_some_iff hti).mpr ⟨id, hmem, hname⟩⟩

/-- A default name is set for the first type of its name only. -/
theorem Tables.firstIndex_of_defaultNamed (h : b.Tables P) {scope : Option ScopeId}
    {type : CppType} {name : String} (htype : type ∈ P.types)
    (hok : (b.defaultNamed scope type name).failure = none) :
    b.core.typeInterning.firstIndex type.name = some type.index := by
  simp only [defaultNamed] at hok
  split_ifs at hok with hstarted hempty
  · cases hok
  · cases hok
  · split at hok
    · cases hok
    · next typeId hslot => exact (h.slot_of_lookup htype hslot).2.2.2

end BeanContext

end Ctorium
