import Ctorium.Registry.Selectable
import Ctorium.Startup.Eager

/-!
# The tables of a registry under the public start

The public start of a context changes the tables of its registry in `Registry::start` only: what
comes after it stores singletons, clears lists and may roll the start back, but neither adds nor
changes descriptors.

* `step_core`: what a step does to the registry.
* `kin_reachable`: so the families and the candidates of a registry are kept in all runs, with
  listeners, eager singletons, rollbacks and retries.
* `step_descriptors`: once the contributions have been merged, the table only grows at its end.
-/

namespace Ctorium

open InjectionPoints

namespace Registry

/-- The tables are the same. -/
structure SameTables (r r' : Registry) : Prop where
  descriptors : r'.descriptors = r.descriptors
  typeInterning : r'.typeInterning = r.typeInterning
  nameInterning : r'.nameInterning = r.nameInterning
  typeIndex : r'.typeIndex = r.typeIndex
  pendingRuntimeSingletons : r'.pendingRuntimeSingletons = r.pendingRuntimeSingletons
  beanContextDescId : r'.beanContextDescId = r.beanContextDescId
  stdSort : r'.stdSort = r.stdSort
  started : r'.started = true → r.started = true

variable {H : IdentityHashes} {r r' r'' : Registry}

theorem SameTables.refl (r : Registry) : SameTables r r := ⟨rfl, rfl, rfl, rfl, rfl, rfl, rfl, id⟩

theorem SameTables.trans (h : SameTables r r') (h' : SameTables r' r'') : SameTables r r'' :=
  ⟨h'.descriptors.trans h.descriptors, h'.typeInterning.trans h.typeInterning,
    h'.nameInterning.trans h.nameInterning, h'.typeIndex.trans h.typeIndex,
    h'.pendingRuntimeSingletons.trans h.pendingRuntimeSingletons,
    h'.beanContextDescId.trans h.beanContextDescId, h'.stdSort.trans h.stdSort,
    fun hs => h.started (h'.started hs)⟩

/-- The contributions matter until they have been merged. -/
theorem Kin.sameTables (h : r.Kin H) (hsame : SameTables r r')
    (hpending : r.beanContextDescId = none → r'.pending = r.pending) : r'.Kin H where
  interned := by
    refine ⟨?_, ?_, ?_⟩
    · rw [Indexed, hsame.descriptors, hsame.typeInterning, hsame.nameInterning, hsame.typeIndex]
      exact h.interned.indexed
    · rw [hsame.descriptors, hsame.nameInterning]
      exact h.interned.named
    · rw [hsame.pendingRuntimeSingletons, hsame.nameInterning]
      exact h.interned.pending
  families := hsame.descriptors ▸ h.families
  waiting hnone := by
    rw [hsame.beanContextDescId] at hnone
    obtain ⟨hdiscovered, hapart, hgrouped⟩ := h.waiting hnone
    rw [hpending hnone]
    refine ⟨hdiscovered, hapart, hsame.descriptors ▸ hgrouped.families, fun d hd horphan => ?_⟩
    rw [hsame.descriptors] at hd
    obtain ⟨cd, hcd, halias, hentry⟩ := hgrouped.orphans d hd horphan
    refine ⟨cd, hcd, halias, ?_⟩
    rw [← hentry, entryOf, entryOf, hsame.typeInterning, hsame.nameInterning]
  merged hne := by
    obtain ⟨hcovered, hheads, hflushed⟩ := h.merged (hsame.beanContextDescId ▸ hne)
    refine ⟨hcovered.congr (by rw [hsame.descriptors]),
      hheads.of_eq hsame.typeIndex fun _ hl => hl.congr (by rw [hsame.descriptors]), ?_⟩
    rwa [Flushed, hsame.typeIndex]
  begun hs := hsame.beanContextDescId ▸ h.begun (hsame.started hs)

/-- The rollback of a start leaves the tables as the start filled them. -/
theorem sameTables_rollbackFailedStart (r : Registry) : SameTables r r.rollbackFailedStart := by
  unfold rollbackFailedStart stopOwnedBeans
  split_ifs
  · exact ⟨rfl, rfl, rfl, rfl, rfl, rfl, rfl, fun hs => absurd hs Bool.false_ne_true⟩
  · exact ⟨rfl, rfl, rfl, rfl, rfl, rfl, rfl, id⟩

theorem pending_rollbackFailedStart (r : Registry) : r.rollbackFailedStart.pending = r.pending := by
  unfold rollbackFailedStart stopOwnedBeans
  split_ifs <;> rfl

end Registry

/-- Only a start registers the context bean. -/
theorem BeanContext.exec_beanContextDescId (b : BeanContext) {c : Call} (hc : c ≠ .start) :
    (b.exec c).state.core.beanContextDescId = b.core.beanContextDescId := by
  cases c with
  -- Every call but start() leaves the context's descriptor to the merge.
  | discover cds =>
    simp only [exec, discover, Registry.submitContribution]
    split_ifs <;> rfl
  | bindSingleton type name priority object =>
    simp only [exec, bindSingleton, Registry.bindSingleton, Registry.bindSingletonStarted,
      Registry.bindSingletonPending]
    split_ifs <;> rfl
  | bindSession scope type name priority object =>
    simp only [exec, bindSession]
    -- A bound session appends or finds a descriptor, never the context's.
    split_ifs
    · rfl
    · rfl
    · rw [placeSession_core]
      unfold Registry.sessionDescriptor
      split
      · rfl
      · simp only [Registry.appendSession]
        split_ifs <;> rfl
  | defaultNamed scope type name =>
    simp only [exec, defaultNamed]
    split_ifs
    · rfl
    · rfl
    · split
      · rfl
      · split <;> rfl
  | clearDefaultNamed scope type =>
    simp only [exec, clearDefaultNamed]
    split_ifs
    · rfl
    · split
      · rfl
      · split
        · rfl
        · split_ifs <;> rfl
  | start => exact absurd rfl hc
  | startScope scope => rw [exec, startScope_core]
  | stopScope scope => rw [exec, Attempt.ok_state, stopScope_core]
  | restartScope scope => rw [exec, restartScope_core]

namespace Startup

open Registry (SameTables)

variable {s s' : State} {fs : List Frame}

/-! ## The functions of a start -/

/-- A rollback inside a run is the registry's rollback. -/
theorem rollback_core (s : State) : SameTables s.core s.rollback.core :=
  Registry.sameTables_rollbackFailedStart s.core

theorem enterEager_core (s : State) (fs : List Frame) (ds : List DescriptorId) :
    SameTables s.core (enterEager s fs ds).core := by
  induction ds with
  | nil => exact ⟨rfl, rfl, rfl, rfl, rfl, rfl, rfl, id⟩
  | cons d ds ih =>
    rw [enterEager]
    split_ifs
    · exact ih
    · exact rollback_core s
    · exact .refl s.core

theorem enterBound_core (s : State) (fs : List Frame) (sbs : List StartBound) :
    SameTables s.core (enterBound s fs sbs).core := by
  cases sbs with
  | nil =>
    refine SameTables.trans ?_ (enterEager_core _ fs _)
    exact ⟨rfl, rfl, rfl, rfl, rfl, rfl, rfl, id⟩
  | cons sb rest => exact .refl s.core

/-- Entering the announcements of a start writes no table. -/
theorem enterStart_core (s : State) (fs : List Frame) :
    SameTables s.core (enterStart s fs).core := by
  unfold enterStart
  split_ifs
  · exact ⟨rfl, rfl, rfl, rfl, rfl, rfl, rfl, id⟩
  · exact enterBound_core s.flush fs _

theorem goOn_core (s : State) (fs : List Frame) : SameTables s.core (goOn s fs).core := by
  unfold goOn
  split
  · exact enterEager_core s _ _
  · exact .refl s.core

theorem passOn_core (s : State) (fs : List Frame) : SameTables s.core (passOn s fs).core := by
  unfold passOn
  split
  · exact rollback_core s
  · exact .refl s.core

/-- Nor does a return. -/
theorem returnStep_core (hstep : returnStep s = some s') : SameTables s.core s'.core := by
  unfold returnStep at hstep
  split at hstep
  · obtain rfl := Option.some.inj hstep
    exact .refl s.core
  · obtain rfl := Option.some.inj hstep
    exact enterBound_core s _ _
  · obtain rfl := Option.some.inj hstep
    exact .refl s.core
  · obtain rfl := Option.some.inj hstep
    exact enterBound_core s _ _
  · obtain rfl := Option.some.inj hstep
    exact .refl s.core
  · obtain rfl := Option.some.inj hstep
    exact .refl s.core
  · obtain rfl := Option.some.inj hstep
    exact goOn_core s _
  · obtain rfl := Option.some.inj hstep
    exact .refl s.core
  · cases hstep

/-- Nor does an exception. -/
theorem throwStep_core (hstep : throwStep s = some s') : SameTables s.core s'.core := by
  unfold throwStep at hstep
  split at hstep
  · obtain rfl := Option.some.inj hstep
    exact rollback_core s
  · obtain rfl := Option.some.inj hstep
    exact rollback_core s
  · next d fs _ =>
    obtain rfl := Option.some.inj hstep
    exact passOn_core { s with materializing := s.materializing.erase d } fs
  · obtain rfl := Option.some.inj hstep
    exact passOn_core s _
  · obtain rfl := Option.some.inj hstep
    exact passOn_core s _
  · cases hstep

/-! ## The steps -/

/-- `BeanContext::start` of a registry that is not started: `Registry::start` is all that changes
    the tables. -/
theorem firstStart_core (s : State) :
    SameTables (s.core.start s.context.self).state (firstStart s).core ∧
      ((s.core.start s.context.self).failure ≠ none →
        (firstStart s).core.pending = (s.core.start s.context.self).state.pending ∧
          (firstStart s).stack = s.stack) := by
  unfold firstStart
  split
  · next core heq =>
    rw [heq]
    refine ⟨?_, fun hne => absurd rfl hne⟩
    exact enterStart_core { s.setCore core with submitted := core.pending, again := false } s.stack
  · next core e heq =>
    rw [heq]
    exact ⟨Registry.sameTables_rollbackFailedStart core,
      fun _ => ⟨Registry.pending_rollbackFailedStart core, rfl⟩⟩

/-- What a step does to the registry: a call other than `start`, the first part of a start, or
    something that leaves the tables alone. -/
inductive CoreStep (s : State) (a : Action) (s' : State) : Prop
  | call (c : BeanContext.Call) (_ : a = .call c) (_ : c ≠ .start)
    (_ : s'.context = (s.context.exec c).state) (_ : s'.stack = s.stack)
  | start (_ : s.core.started = false) (_ : s.stack = []) (_ : s' = firstStart s)
  | same (_ : SameTables s.core s'.core) (_ : s.core.started = true ∨ s.stack ≠ [])
  | idle (_ : s'.core = s.core) (_ : s'.stack = s.stack)

/-- A step leaves the tables, makes a call of the context or merges. -/
theorem step_core {a : Action} (hstep : step s a = some s') : CoreStep s a s' := by
  cases a with
  | start =>
    -- start(): again on a started context, or the first with an empty stack.
    simp only [step] at hstep
    split_ifs at hstep with hs hstack
    · obtain rfl := Option.some.inj hstep
      exact .same (enterStart_core { s with again := true } s.stack) (.inl hs)
    · obtain rfl := Option.some.inj hstep
      exact .start (by simpa using hs) hstack rfl
  -- on() touches the listeners only.
  | on token =>
    simp only [step, Option.some.injEq] at hstep
    subst hstep
    split_ifs <;> exact .idle rfl rfl
  | call c =>
    obtain ⟨hc, heq⟩ := call_step hstep
    subst heq
    exact .call c rfl hc rfl rfl
  | enter =>
    simp only [step] at hstep
    split_ifs at hstep with hs
    obtain rfl := Option.some.inj hstep
    exact .same (.refl s.core) (.inl hs)
  | materialize d =>
    simp only [step] at hstep
    split_ifs at hstep with hc
    obtain rfl := Option.some.inj hstep
    simp only [constructible, Bool.and_eq_true] at hc
    exact .same (.refl s.core) (.inl hc.1.1.1)
  | constructed mem =>
    simp only [step] at hstep
    split at hstep
    · next d fs hstack =>
      obtain rfl := Option.some.inj hstep
      exact .same ⟨rfl, rfl, rfl, rfl, rfl, rfl, rfl, id⟩ (.inr (by simp [hstack]))
    · cases hstep
  -- Returning and throwing need a frame, so the start has begun.
  | returns =>
    refine .same (returnStep_core hstep) (.inr fun hnil => ?_)
    have hnone : returnStep s = none := by
      unfold returnStep
      rw [hnil]
    rw [show step s .returns = returnStep s from rfl, hnone] at hstep
    cases hstep
  | throws =>
    refine .same (throwStep_core hstep) (.inr fun hnil => ?_)
    have hnone : throwStep s = none := by
      unfold throwStep
      rw [hnil]
    rw [show step s .throws = throwStep s from rfl, hnone] at hstep
    cases hstep

/-! ## The families in all runs -/

/-- A discovery before the merge submits types whose aliases can be told apart from the
    primaries, together with those that have been submitted before. -/
def TellsApart (H : IdentityHashes) (s : State) (a : Action) : Prop :=
  ∀ cds, a = .call (.discover cds) → (∃ entities, cds = makeAllDescriptors H entities) ∧
    (s.core.beanContextDescId = none → Registry.Apart (s.core.pending ++ cds))

variable {H : IdentityHashes}

/-- The registry of a state, and the functions that run on it after its start. -/
structure KinState (H : IdentityHashes) (s : State) : Prop where
  kin : s.core.Kin H
  begun : s.stack ≠ [] → s.core.beanContextDescId ≠ none

/-- A start that merges the contributions registers the context bean. -/
theorem start_beanContextDescId (r : Registry) (ctx : Addr) (hnot : r.started = false)
    (hok : (r.start ctx).failure = none) : (r.start ctx).state.beanContextDescId ≠ none := by
  rcases Registry.start_cases r ctx with ⟨hs, -⟩ | ⟨descId, -, hid, heq⟩ | ⟨-, -, heq⟩
  · rw [hnot] at hs
    cases hs
  · rw [heq]
    exact ne_of_eq_of_ne hid (Option.some_ne_none _)
  · rw [heq] at hok ⊢
    change (Registry.merge _ ctx).state.registry.beanContextDescId ≠ none
    rw [(Registry.merge_of_ok hok).2.2.2]
    exact Option.some_ne_none _

theorem KinState.step (h : KinState H s) {a : Action} (hG : TellsApart H s a)
    (hstep : step s a = some s') : KinState H s' := by
  cases step_core hstep with
  | call c ha hc hcontext hstack =>
    have hkin : (s.context.exec c).state.core.Kin H := by
      refine BeanContext.exec_kin h.kin fun cds heq => ?_
      obtain ⟨⟨entities, rfl⟩, hapart⟩ := hG cds (heq ▸ ha)
      exact ⟨Registry.discovered_makeAllDescriptors entities, hapart⟩
    -- The guard makes the submitted descriptors a discovery that tells types apart.
    have hcore : s'.core = (s.context.exec c).state.core := congrArg BeanContext.core hcontext
    refine ⟨hcore ▸ hkin, fun hne => ?_⟩
    rw [hcore, BeanContext.exec_beanContextDescId s.context hc]
    exact h.begun (hstack ▸ hne)
  | start hnot hstack heq =>
    subst heq
    obtain ⟨hsame, hfail⟩ := firstStart_core s
    have hstarted := h.kin.start s.context.self
    -- A start that succeeds records the context's descriptor.
    cases hfailure : (s.core.start s.context.self).failure with
    | none =>
      have hid := start_beanContextDescId s.core s.context.self hnot hfailure
      exact ⟨hstarted.sameTables hsame fun hnone => absurd hnone hid,
        fun _ => hsame.beanContextDescId ▸ hid⟩
    -- One that fails leaves its pending descriptors merged and the stack as it was.
    | some e =>
      obtain ⟨hpending, hkept⟩ := hfail (by simp [hfailure])
      exact ⟨hstarted.sameTables hsame fun _ => hpending, fun hne =>
        absurd (hkept.trans hstack) hne⟩
  -- The tables stay, and a frame on the stack means the start has begun.
  | same hsame hbegun =>
    have hid : s.core.beanContextDescId ≠ none := hbegun.elim h.kin.begun h.begun
    exact ⟨h.kin.sameTables hsame fun hnone => absurd hnone hid, fun _ =>
      hsame.beanContextDescId ▸ hid⟩
  | idle hcore hstack => exact ⟨hcore ▸ h.kin, fun hne => hcore ▸ h.begun (hstack ▸ hne)⟩

theorem kin_reachable (hs : machine.ReachableBy (TellsApart H) s) : KinState H s := by
  refine hs.invariant (P := KinState H) ?_ fun s a s' h hG hstep => h.step hG hstep
  rintro s ⟨S, self, rfl⟩
  exact ⟨Registry.kin_empty H _, fun hne => absurd rfl hne⟩

/-- A run that discovers at its beginning only. -/
theorem reachable_of_discover {entities : List DiscoveredEntity} {as : List Action}
    (hapart : Registry.Apart (makeAllDescriptors H entities))
    (has : ∀ a ∈ as, ∀ cds, a ≠ .call (.discover cds))
    (hrun : machine.run initial
    (.call (.discover (makeAllDescriptors H entities)) :: as) = some s) :
    machine.ReachableBy (TellsApart H) s := by
  refine .run (.init ⟨_, 0, rfl⟩) (Machine.along_iff.mpr fun k t a ht ha => ?_) hrun
  cases k with
  | zero =>
    obtain rfl := Option.some.inj ht
    obtain rfl := Option.some.inj ha
    rintro cds ⟨⟩
    exact ⟨⟨entities, rfl⟩, fun _ => hapart⟩
  | succ k =>
    intro cds heq
    exact absurd heq (has a (List.mem_of_getElem? ha) cds)

/-- The table of a registry whose contributions have been merged only grows, at its end. -/
theorem step_descriptors (hid : s.core.beanContextDescId ≠ none) {a : Action}
    (hstep : step s a = some s') : s.core.descriptors <+: s'.core.descriptors ∧
      s'.core.beanContextDescId ≠ none := by
  cases step_core hstep with
  | call c ha hc hcontext hstack =>
    have hcore : s'.core = (s.context.exec c).state.core := congrArg BeanContext.core hcontext
    obtain ⟨ds, hds, -⟩ := (s.context.exec_continues c hc).descriptors
    rw [hcore, BeanContext.exec_beanContextDescId s.context hc]
    exact ⟨⟨ds, hds.symm⟩, hid⟩
  | start hnot hstack heq =>
    subst heq
    obtain ⟨hsame, -⟩ := firstStart_core s
    rcases Registry.start_cases s.core s.context.self with ⟨hs, -⟩ | ⟨descId, -, -, heq⟩ |
      ⟨-, hnone, -⟩
    · rw [hnot] at hs
      cases hs
    · rw [heq] at hsame
      rw [hsame.descriptors, hsame.beanContextDescId]
      exact ⟨List.prefix_rfl, hid⟩
    · exact absurd hnone hid
  | same hsame hbegun =>
    rw [hsame.descriptors, hsame.beanContextDescId]
    exact ⟨List.prefix_rfl, hid⟩
  | idle hcore hstack =>
    rw [hcore]
    exact ⟨List.prefix_rfl, hid⟩

end Startup

end Ctorium
