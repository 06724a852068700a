import Ctorium.Registry.Atomicity
import Ctorium.Startup.Tables

/-!
# Identifiers are stable

Types, names and descriptors are known by numbers, which call sites, candidate lists and
handles keep. A table that dropped or reordered something would silently redirect them.
This module follows the tables through all runs of the public calls of a context: starts
that fail and are retried, starts that are rolled back after the merge, beans that are
bound in between.

* `Registry.Grows`: every number still means what it meant;
* `step_grows`: every step keeps it, also one that fails;
* `identifiers_stable`: so does every run, from any state that is reached;
* `selection_stable`: what a started context selects is the primary of its family, and is so
  for the rest of the run.
-/

namespace Ctorium

open Attempt

namespace Registry

variable {r r' r'' : Registry} {s s' : StartState} {d : Descriptor}

theorem Extends.of_tables (htypes : r'.typeInterning = r.typeInterning)
    (hnames : r'.nameInterning = r.nameInterning) : Extends r r' :=
  ⟨fun _ _ => by rw [htypes], fun _ _ => by rw [hnames], htypes ▸ le_rfl, hnames ▸ le_rfl⟩

/-- All tables of a registry have grown at their ends only. -/
structure Grows (r r' : Registry) : Prop where
  interned : r'.Interned
  larger : Extends r r'
  entries : r.entries <+: r'.entries
  onward : Onward r r'

namespace Grows

theorem refl (h : r.Interned) : Grows r r := ⟨h, .refl r, List.prefix_rfl, .refl r⟩

theorem trans (h : Grows r r') (h' : Grows r' r'') : Grows r r'' :=
  ⟨h'.interned, h.larger.trans h'.larger, h.entries.trans h'.entries, h.onward.trans h'.onward⟩

/-- A registry with larger interning tables and the same or more descriptors. -/
theorem of_descriptors (h : r.Interned) (hr : r'.Interned) (hext : Extends r r')
    (hds : r.descriptors <+: r'.descriptors) (honward : Onward r r') : Grows r r' :=
  ⟨hr, hext, hext.entries_prefix h hds, honward⟩

/-- A registry with the same tables. -/
theorem of_eq (h : r.Interned) (hr : r'.Interned) (hds : r'.descriptors = r.descriptors)
    (htypes : r'.typeInterning = r.typeInterning) (hnames : r'.nameInterning = r.nameInterning)
    (hindex : r'.typeIndex = r.typeIndex) : Grows r r' :=
  of_descriptors h hr (.of_tables htypes hnames) (hds ▸ List.prefix_rfl) (.of_eq hnames hindex)

theorem sameTables (h : r.Interned) (hsame : SameTables r r') : Grows r r' := by
  refine of_eq h ⟨?_, ?_, ?_⟩ hsame.descriptors hsame.typeInterning hsame.nameInterning
    hsame.typeIndex
  · rw [Indexed, hsame.descriptors, hsame.typeInterning, hsame.nameInterning, hsame.typeIndex]
    exact h.indexed
  · rw [hsame.descriptors, hsame.nameInterning]
    exact h.named
  · rw [hsame.pendingRuntimeSingletons, hsame.nameInterning]
    exact h.pending

theorem withNames (h : r.Interned) (name : String) :
    Grows r (r.withNames (r.nameInterning.intern name).2) :=
  of_descriptors h (h.withNames name) (h.extends_names name) List.prefix_rfl (.intern r name)

theorem internType (h : r.Interned) (type : CppType) :
    Grows r (r.withTypes (r.typeInterning.internByName type).2) :=
  of_descriptors h (h.withTypes type) (h.extends_types type) List.prefix_rfl (.of_eq rfl rfl)

/-- The types of a registry with those that a binding has interned. -/
theorem withTypes (h : r.Interned) {ti : TypeInterning} (hti : ti = r.typeInterning ∨
    ∃ type, ti = (r.typeInterning.internByName type).2) : Grows r (r.withTypes ti) := by
  rcases hti with rfl | ⟨type, rfl⟩
  · exact refl h
  · exact internType h type

theorem appendCandidate (h : r.Interned) (htype : d.exposedType < r.typeInterning.size)
    (hname : d.name < r.nameInterning.size) : Grows r (r.appendCandidate d) :=
  of_descriptors h (h.appendCandidate htype hname) (.of_tables rfl rfl) (List.prefix_append _ _)
    (.appendCandidate r d)

theorem publishCandidate (h : r.Interned) (htype : d.exposedType < r.typeInterning.size)
    (hname : d.name < r.nameInterning.size) : Grows r (r.publishCandidate d) :=
  of_descriptors h (h.publishCandidate htype hname) (.of_tables rfl rfl) (List.prefix_append _ _)
    (.publishCandidate r d)

/-! ## Starts -/

theorem mergeContribution (h : s.registry.Interned) (cd : ContributedDescriptor) :
    Grows s.registry (mergeContribution s cd).state.registry := by
  have honward := onward_mergeContribution s cd
  unfold Registry.mergeContribution at honward ⊢
  split at honward
  · obtain ⟨hinterned, hentries, hext⟩ := h.mergeNew cd
    exact ⟨hinterned, hext, hentries ▸ List.prefix_append _ _, honward⟩
  · split
    · split_ifs <;> exact refl h
    · exact refl h

theorem mergePendingSingleton (h : s.registry.Interned) {pb : PendingRuntimeSingleton}
    (hpb : pb.nameId < s.registry.nameInterning.size) :
    Grows s.registry (mergePendingSingleton s pb).state.registry := by
  have hext := h.extends_types pb.type
  obtain ⟨hinterned, -, hentries, -⟩ := h.mergePendingSingleton hpb
  refine ⟨hinterned, ?_, hentries, onward_mergePendingSingleton s pb⟩
  simp only [Registry.mergePendingSingleton]
  split_ifs <;> exact ⟨hext.types, hext.names, hext.typesSize, hext.namesSize⟩

theorem mergeAll (h : r.Interned) : Grows r (mergeAll { registry := r }).state.registry := by
  let P := fun t : StartState => Grows r t.registry
  have hcontributions : ∀ t cd, P t → P (Registry.mergeContribution t cd).state :=
    fun t cd ht => ht.trans (mergeContribution ht.interned cd)
  have hmerged : P (forEach Registry.mergeContribution r.pending { registry := r }).state :=
    forEach_invariant (P := P) (fun t cd _ ht => hcontributions t cd ht) (refl h)
  have hpending := forEach_mergeContribution_pendingRuntimeSingletons r.pending { registry := r }
  unfold Registry.mergeAll
  cases hfail : (forEach Registry.mergeContribution r.pending { registry := r }).failure with
  | some e => rwa [andThen_of_fail hfail]
  | none =>
    rw [andThen_of_ok hfail]
    refine forEach_invariant (P := P) (fun t pb hpb ht => ?_) hmerged
    rw [hpending] at hpb
    exact ht.trans (mergePendingSingleton ht.interned
      ((h.pending pb hpb).trans_le ht.larger.namesSize))

theorem mergeAndLink (h : r.Interned) :
    Grows r (mergeAndLink { registry := r }).state.registry := by
  have hmerged := mergeAll h
  have hinterned := mergeAndLink_interned h
  have honward := onward_mergeAndLink { registry := r }
  cases hfail : (Registry.mergeAll { registry := r }).failure with
  | some e =>
    have heq : Registry.mergeAndLink { registry := r } = Registry.mergeAll { registry := r } :=
      andThen_of_fail hfail
    rwa [heq]
  | none =>
    have heq : (Registry.mergeAndLink { registry := r }).state =
        (linkAll (Registry.mergeAll { registry := r }).state).state :=
      congrArg Attempt.state (andThen_of_ok hfail)
    obtain ⟨hentries, htypes, hnames⟩ := linkAll_entries (Registry.mergeAll { registry := r }).state
    rw [← heq] at hentries htypes hnames
    have hlarger := hmerged.larger
    refine ⟨hinterned, ⟨?_, ?_, ?_, ?_⟩, hentries ▸ hmerged.entries, honward⟩
    · rw [htypes]
      exact hlarger.types
    · rw [hnames]
      exact hlarger.names
    · rw [htypes]
      exact hlarger.typesSize
    · rw [hnames]
      exact hlarger.namesSize

/-- A start, whether it succeeds or not. -/
theorem start (h : r.Interned) (ctx : Addr) : Grows r (r.start ctx).state := by
  have honward := onward_start r ctx
  have hinterned := h.start ctx
  rcases start_cases r ctx with ⟨-, heq⟩ | ⟨descId, -, -, heq⟩ | ⟨-, -, heq⟩
  -- Started already, begun again after a rollback, or merged now.
  · rw [heq]
    exact refl h
  · rw [heq] at hinterned ⊢
    exact of_eq h hinterned rfl rfl rfl rfl
  -- Merged now: the tables grow through the whole merge, whatever becomes of it.
  · rw [heq] at honward hinterned ⊢
    have hlinked := mergeAndLink h
    cases hfail : (merge { registry := r } ctx).failure with
    | none =>
      have hstate := (merge_of_ok hfail).2.2.2
      have hentries := (finishStart_interned hlinked.interned ctx).2
      have htypes := hlinked.interned.extends_types beanContextType
      -- On success the context's own type is interned last.
      have hlarger : Extends r (merge { registry := r } ctx).state.registry := by
        rw [hstate]
        exact hlinked.larger.trans ⟨htypes.types, htypes.names, htypes.typesSize, htypes.namesSize⟩
      refine ⟨hinterned, hlarger, ?_, honward⟩
      change r.entries <+: (merge { registry := r } ctx).state.registry.entries
      rw [hstate, hentries]
      exact hlinked.entries.trans (List.prefix_append _ _)
    -- On failure everything interned so far stays.
    | some e =>
      have htables : Extends r (merge { registry := r } ctx).state.registry ∧
          r.entries <+: (merge { registry := r } ctx).state.registry.entries := by
        rcases merge_of_fail hfail with hstate | hstate <;> rw [hstate]
        · exact ⟨hlinked.larger, hlinked.entries⟩
        · exact ⟨hlinked.larger.trans (.of_tables rfl rfl), hlinked.entries⟩
      exact ⟨hinterned, htables.1, htables.2, honward⟩

end Grows

end Registry

namespace BeanContext

open Registry (Grows)

variable {b : BeanContext}

theorem grows_bindSession (h : b.core.Interned) (scope : ScopeId) (type : CppType) (name : String)
    (priority : ℤ) (object : Addr) :
    Grows b.core (b.bindSession scope type name priority object).state.core := by
  have hnames := Grows.withNames h name
  -- The name first, then the type, adopted or new.
  have htypes : Grows b.core (b.core.internSession type name) := by
    refine hnames.trans (Grows.withTypes hnames.interned ?_)
    change (b.core.sessionType type).2 = b.core.typeInterning ∨ _
    unfold Registry.sessionType
    split_ifs
    · exact b.core.adoptType_cases type
    · exact .inr ⟨type, rfl⟩
  simp only [bindSession]
  split_ifs
  · exact .refl h
  · exact htypes
  · rw [placeSession_core]
    -- Then the descriptor, unless an earlier one is used again.
    refine htypes.trans ?_
    have htype := (h.indexed.sessionType type).2
    have hname := NameInterning.intern_lt h.indexed.names name
    unfold Registry.sessionDescriptor
    split
    · exact .refl htypes.interned
    -- A started registry gives it a session slot at once.
    · simp only [Registry.appendSession]
      split_ifs
      · have hcount : Grows (b.core.internSession type name)
            (b.core.internSession type name).nextSessionSlot :=
          .of_eq htypes.interned ⟨htypes.interned.indexed, htypes.interned.named,
            htypes.interned.pending⟩ rfl rfl rfl rfl
        exact hcount.trans (.publishCandidate hcount.interned htype hname)
      · exact .appendCandidate htypes.interned htype hname

theorem grows_bindSingleton (h : b.core.Interned) (type : CppType) (name : String) (priority : ℤ)
    (object : Addr) : Grows b.core (b.bindSingleton type name priority object).state.core := by
  have hnames := Grows.withNames h name
  have hname := NameInterning.intern_lt h.indexed.names name
  have hinterned := hnames.interned.bindSingleton type hname priority object
  simp only [bindSingleton, Registry.bindSingleton] at hinterned ⊢
  split_ifs at hinterned ⊢ with hcontext hstarted
  · exact hnames
  · have hadopted : Grows b.core ((b.core.withNames (b.core.nameInterning.intern name).2).withTypes
        (b.core.adoptType type).2) :=
      hnames.trans (.withTypes hnames.interned (b.core.adoptType_cases type))
    have htype := (h.indexed.adoptType type).2
    simp only [Registry.bindSingletonStarted]
    split_ifs
    · exact hadopted
    · have hstored : Grows b.core
        (((b.core.withNames (b.core.nameInterning.intern name).2).withTypes
          (b.core.adoptType type).2).growSingletons object) :=
        hadopted.trans (.of_eq hadopted.interned ⟨hadopted.interned.indexed,
          hadopted.interned.named, hadopted.interned.pending⟩ rfl rfl rfl rfl)
      exact hstored.trans (.publishCandidate hstored.interned htype hname)
  · unfold Registry.bindSingletonPending at hinterned ⊢
    split_ifs at hinterned ⊢
    · exact hnames
    · exact hnames.trans (.of_eq hnames.interned hinterned rfl rfl rfl rfl)

/-- Every call keeps the meaning of the identifiers. -/
theorem exec_grows (h : b.core.Interned) (call : Call) :
    Grows b.core (b.exec call).state.core := by
  have hinterned := exec_interned h call
  cases call with
  -- discover() appends to what is pending or is refused.
  | discover cds =>
    simp only [exec, discover, Registry.submitContribution] at hinterned ⊢
    split_ifs at hinterned ⊢ <;> exact .of_eq h hinterned rfl rfl rfl rfl
  | bindSingleton type name priority object => exact grows_bindSingleton h type name priority object
  | bindSession scope type name priority object => exact grows_bindSession h _ type name _ _
  | defaultNamed scope type name =>
    have hname := Grows.withNames h name
    -- The name is interned even where no scope of that name is found.
    simp only [exec, defaultNamed] at hinterned ⊢
    split_ifs at hinterned ⊢
    · exact .refl h
    · exact .refl h
    · split at hinterned
      · exact .refl h
      · split at hinterned
        · exact hname.trans (.of_eq hname.interned hinterned rfl rfl rfl rfl)
        · exact hname
  | clearDefaultNamed scope type =>
    simp only [exec, clearDefaultNamed] at hinterned ⊢
    -- Clearing interns nothing.
    split_ifs at hinterned ⊢
    · exact .refl h
    · split at hinterned
      · exact .refl h
      · split at hinterned
        · exact .of_eq h hinterned rfl rfl rfl rfl
        · split_ifs at hinterned ⊢ <;> exact .refl h
  | start => exact .start h b.self
  | startScope scope => rw [exec, startScope_core]; exact .refl h
  | stopScope scope => rw [exec, Attempt.ok_state, stopScope_core]; exact .refl h
  | restartScope scope => rw [exec, restartScope_core]; exact .refl h

end BeanContext

namespace Startup

open InjectionPoints (IdentityHashes DiscoveredEntity lengths makeAllDescriptors)
open Registry (Grows IsOrphan IsPrimary)

variable {s s' : State}

/-! ## Runs -/

/-- No step of a run changes what an identifier means. -/
theorem step_grows (h : s.core.Interned) {a : Action} (hstep : step s a = some s') :
    Grows s.core s'.core := by
  cases step_core hstep with
  | call c ha hc hcontext hstack =>
    have hcore : s'.core = (s.context.exec c).state.core := congrArg BeanContext.core hcontext
    exact hcore ▸ BeanContext.exec_grows h c
  | start hnot hstack heq =>
    subst heq
    have hstarted := Grows.start h s.context.self
    exact hstarted.trans (.sameTables hstarted.interned (firstStart_core s).1)
  | same hsame hbegun => exact .sameTables h hsame
  | idle hcore hstack =>
    rw [hcore]
    exact .refl h

theorem interned_reachable (hs : machine.Reachable s) : s.core.Interned := by
  refine hs.invariant (P := fun s => s.core.Interned) ?_ fun s a s' h hstep =>
    (step_grows h hstep).interned
  rintro s ⟨S, self, rfl⟩
  exact Registry.interned_empty _

/-- The table of a merged registry only grows at its end. -/
theorem run_descriptors (hid : s.core.beanContextDescId ≠ none) {as : List Action}
    (hr : machine.run s as = some s') : s.core.descriptors <+: s'.core.descriptors := by
  refine (Machine.run_invariant (P := fun t => s.core.descriptors <+: t.core.descriptors ∧
    t.core.beanContextDescId ≠ none) (fun t a t' h hstep => ?_) ⟨List.prefix_rfl, hid⟩ hr).1
  obtain ⟨hds, hid'⟩ := step_descriptors h.2 hstep
  exact ⟨h.1.trans hds, hid'⟩

/-- Whatever calls a program makes, and whichever of them fail: no identifier changes its meaning,
    and once the contributions have been merged, no descriptor changes. -/
theorem identifiers_stable (s s' : State) (as : List Action) (hs : machine.Reachable s)
    (hr : machine.run s as = some s') : Grows s.core s'.core ∧
      (s.core.beanContextDescId ≠ none → s.core.descriptors <+: s'.core.descriptors) := by
  refine ⟨?_, fun hid => run_descriptors hid hr⟩
  exact Machine.run_invariant (P := fun t => Grows s.core t.core)
    (fun t a t' h hstep => h.trans (step_grows h.interned hstep))
    (.refl (interned_reachable hs)) hr

/-- A resolution on a started context selects a descriptor of a family whose primary stands for the
    same bean, with its name and its lifetime, in every later state. -/
theorem selection_stable (H : IdentityHashes) (s s' : State) (as : List Action)
    (hs : machine.ReachableBy (TellsApart H) s)
    (scope : Option ScopeId) (typeId : TypeId) (nameId : NameId) (id : DescriptorId)
    (hselect : s.context.select scope typeId nameId = .ok id)
    (hr : machine.run s as = some s') :
    ∃ d, s.core.descriptors[id]? = some d ∧ s'.core.descriptors[id]? = some d ∧
      ¬IsOrphan d ∧ ∀ p, d.primaryDescriptor = some p → ∃ dp,
        IsPrimary s'.core.descriptors p dp ∧ dp.concreteType = d.concreteType ∧
          dp.name = d.name ∧ dp.lifetime = d.lifetime := by
  have hkin := (kin_reachable hs).kin
  unfold BeanContext.select at hselect
  split_ifs at hselect with hnot
  have hstarted : s.core.started = true := by simpa using hnot
  obtain ⟨d, hd, horphan⟩ := hkin.linkedAt hstarted hselect
  have hds := run_descriptors (hkin.begun hstarted) hr
  obtain ⟨more, hmore⟩ := hds
  have hd' : s'.core.descriptors[id]? = some d := by
    rw [← hmore, List.getElem?_append_left (List.getElem?_eq_some_iff.mp hd).1, hd]
  refine ⟨d, hd, hd', horphan, fun p hp => ?_⟩
  obtain ⟨dp, hdp, hconcrete, hname, hlifetime⟩ := hkin.families.primary id d p hd hp
  exact ⟨dp, hmore ▸ hdp.append more, hconcrete, hname, hlifetime⟩

/-- An eager singleton, which exposes a base. -/
def printers : List DiscoveredEntity :=
  [.annotatedType ⟨"Printer", 2⟩ [⟨"Device", 3⟩] { lazy := false, hasLifetimeMarker := true } {}]

def discoversPrinters : Action := .call (.discover (makeAllDescriptors lengths printers))

/-- The first start is rolled back, since the constructor of the singleton throws. -/
def jammed : List Action := [.start, .returns, .returns, .throws]

/-- The second start constructs the singleton. -/
def retried : List Action :=
  [.start, .returns, .returns, .constructed 7, .returns, .returns, .returns]

/-- An instance is bound on the started context. -/
def bindsClock : List Action := [.call (.bindSingleton ⟨"Clock", 1⟩ "wall" 0 9)]

/-- The descriptors of the first start are those of the second one, and another one is added. -/
theorem identifiers_stable_context : ∃ s s',
    machine.run initial (discoversPrinters :: jammed) = some s ∧ .startThrew ∈ s.effects ∧
      machine.run s (retried ++ bindsClock) = some s' ∧ s.core.descriptors.length = 3 ∧
        s'.core.descriptors.length = 4 ∧ Grows s.core s'.core ∧
          s.core.descriptors <+: s'.core.descriptors := by
  obtain ⟨s, s', hs, hthrew, hr, hlength, hlength', hid⟩ : ∃ s s',
      machine.run initial (discoversPrinters :: jammed) = some s ∧ .startThrew ∈ s.effects ∧
        machine.run s (retried ++ bindsClock) = some s' ∧ s.core.descriptors.length = 3 ∧
        s'.core.descriptors.length = 4 ∧ s.core.beanContextDescId = some 2 :=
    ⟨_, _, rfl, by decide, rfl, rfl, rfl, rfl⟩
  obtain ⟨hgrows, hprefix⟩ := identifiers_stable s s' _ (.run (.init ⟨_, 0, rfl⟩) hs) hr
  exact ⟨s, s', hs, hthrew, hr, hlength, hlength', hgrows, hprefix (by simp [hid])⟩

/-- After the second start, the base selects the alias, whose primary is that of the printer. -/
theorem selection_stable_context : ∃ s s' d dp, machine.ReachableBy (TellsApart lengths) s ∧
    .startThrew ∈ s.effects ∧ machine.run s bindsClock = some s' ∧
      s.context.select none 1 kUnnamed = .ok 1 ∧ s'.core.descriptors[1]? = some d ∧
      d.primaryDescriptor = some 0 ∧ ¬IsOrphan d ∧ IsPrimary s'.core.descriptors 0 dp ∧
      dp.concreteType = d.concreteType := by
  obtain ⟨s, s', hs, hthrew, hr, hselect, hprimary⟩ : ∃ s s',
      machine.run initial (discoversPrinters :: (jammed ++ retried)) = some s ∧
        .startThrew ∈ s.effects ∧
        machine.run s bindsClock = some s' ∧ s.context.select none 1 kUnnamed = .ok 1 ∧
        s.core.descriptors[1]?.bind Descriptor.primaryDescriptor = some 0 :=
    ⟨_, _, rfl, by decide, rfl, rfl, rfl⟩
  have hreach : machine.ReachableBy (TellsApart lengths) s := by
    refine reachable_of_discover (by decide) (fun a ha cds => ?_) hs
    rcases List.mem_append.mp ha with ha | ha
    · simp only [jammed, List.mem_cons, List.not_mem_nil, or_false] at ha
      rcases ha with rfl | rfl | rfl | rfl <;> exact Action.noConfusion
    · simp only [retried, List.mem_cons, List.not_mem_nil, or_false] at ha
      rcases ha with rfl | rfl | rfl | rfl | rfl | rfl | rfl <;> exact Action.noConfusion
  obtain ⟨d, hd, hd', horphan, hstands⟩ :=
    selection_stable lengths s s' _ hreach none 1 kUnnamed 1 hselect hr
  rw [hd, Option.bind_some] at hprimary
  obtain ⟨dp, hdp, hconcrete, -⟩ := hstands 0 hprimary
  exact ⟨s, s', d, dp, hreach, hthrew, hr, hselect, hd', hprimary, horphan, hdp, hconcrete⟩

end Startup

end Ctorium
