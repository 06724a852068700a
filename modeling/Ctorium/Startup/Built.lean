import Mathlib.Data.List.Perm.Subperm
import Ctorium.Startup.Conservation

/-!
# Eager singletons are built at the start

The singletons that are marked with `lazy = false` are built by a start that returns normally,
the first one or one that is tried again after others have thrown.

* `Backed`: what a thread has claimed are singletons under construction on it, so nothing is
  claimed when no function is under way.
* `Retained`: after the merge, the table only grows by bound beans, so all attempts go through the
  same list of eager singletons.
* `built_at_start`: if the first attempt gets through the merge, and the contributions that are
  kept for the marked singletons say so, each of them is constructed once, and those of higher
  priority first.
* `product_not_built`: the descriptor of a producer method never says so.
-/

namespace Ctorium

/-! ## What is retained from the merge -/

namespace Registry

variable {r r' r'' : Registry}

/-- The table of a merged registry, but for bound beans that have been added. -/
structure Retained (r r' : Registry) : Prop where
  grown : GrownByBound r r'
  merged : ∃ id, r'.beanContextDescId = some id ∧ id < r'.descriptors.length ∧
    r'.isEager id = false
  stdSort : r'.stdSort = r.stdSort

theorem Retained.trans_same (h : Retained r r') (hds : r''.descriptors = r'.descriptors)
    (hid : r''.beanContextDescId = r'.beanContextDescId) (hsort : r''.stdSort = r'.stdSort) :
    Retained r r'' := by
  refine ⟨?_, ?_, hsort.trans h.stdSort⟩
  · rw [GrownByBound, hds]
    exact h.grown
  · obtain ⟨id, hsome, hlt, hnot⟩ := h.merged
    refine ⟨id, hid.trans hsome, hds ▸ hlt, ?_⟩
    rw [isEager, hds]
    exact hnot

theorem GrownByBound.isEager (h : GrownByBound r r') {id : DescriptorId}
    (hlt : id < r.descriptors.length) : r'.isEager id = r.isEager id := by
  obtain ⟨ds, hds, -⟩ := h
  rw [Registry.isEager, hds, List.getElem?_append_left hlt, ← Registry.isEager]

theorem Retained.trans_grown (h : Retained r r') (hgrown : GrownByBound r' r'')
    (hid : r''.beanContextDescId = r'.beanContextDescId) (hsort : r''.stdSort = r'.stdSort) :
    Retained r r'' := by
  obtain ⟨id, hsome, hlt, hnot⟩ := h.merged
  refine ⟨h.grown.trans hgrown, ⟨id, hid.trans hsome, ?_, (hgrown.isEager hlt).trans hnot⟩,
    hsort.trans h.stdSort⟩
  obtain ⟨ds, hds, -⟩ := hgrown
  rw [hds, List.length_append]
  exact hlt.trans_le (Nat.le_add_right _ _)

/-- The context bean that a start registers is not eager. -/
theorem retained_finishStart (s : StartState) (ctx : Addr) :
    Retained (finishStart (sortState s) ctx).registry (finishStart (sortState s) ctx).registry := by
  refine ⟨⟨[], (List.append_nil _).symm, List.forall_mem_nil _⟩,
    ⟨s.registry.descriptors.length, rfl, ?_, ?_⟩, rfl⟩
  · have hmap := congrArg List.length (finishStart_map s ctx (g := fun _ => ()) fun _ _ => rfl)
    simp only [List.length_map, List.length_append, List.length_singleton] at hmap
    rw [hmap]
    exact Nat.lt_succ_self _
  · rw [isEager_finishStart, List.getElem?_concat_length]
    rfl

/-! ## The descriptors of contributions -/

open Attempt

/-- The descriptors that are not bound are those of contributions. -/
def Mapped (s : StartState) : Prop :=
  ∀ id d, s.registry.descriptors[id]? = some d → d.origin ≠ .runtimeBinding →
    id ∈ s.identityMap.map Prod.snd

theorem mergeNew_identities (s : StartState) (cd : ContributedDescriptor) :
    (mergeNew s cd).identityMap.map Prod.snd =
      s.identityMap.map Prod.snd ++ [s.registry.descriptors.length] := List.map_append

theorem mapped_mergeAndLink {r : Registry}
    (hbound : ∀ d ∈ r.descriptors, d.origin = .runtimeBinding) :
    Mapped (mergeAndLink { registry := r }).state := by
  -- Appending a descriptor: the ids of the earlier ones stay, the new one needs an identity.
  have hgrow : ∀ {s s' : StartState} {d : Descriptor}, Mapped s →
      s'.registry.descriptors = s.registry.descriptors ++ [d] →
      (∀ id ∈ s.identityMap.map Prod.snd, id ∈ s'.identityMap.map Prod.snd) →
      (d.origin ≠ .runtimeBinding → s.registry.descriptors.length ∈ s'.identityMap.map Prod.snd) →
      Mapped s' := by
    intro s s' d hs hds hold hnew id d' hd' horigin
    rw [hds] at hd'
    rcases Nat.lt_trichotomy id s.registry.descriptors.length with hlt | rfl | hgt
    · rw [List.getElem?_append_left hlt] at hd'
      exact hold id (hs id d' hd' horigin)
    · rw [List.getElem?_concat_length] at hd'
      exact hnew (Option.some.inj hd' ▸ horigin)
    -- No id lies beyond the appended one.
    · rw [List.getElem?_eq_none (by simpa using Nat.succ_le_of_lt hgt)] at hd'
      cases hd'
  -- Linking changes a descriptor in place and never its origin.
  have hmodify : ∀ (s : StartState) id (f : Descriptor → Descriptor),
      (∀ d, (f d).origin = d.origin) → Mapped s →
        Mapped { s with registry := s.registry.modifyDescriptor id f } := by
    intro s id f hf hs id' d' hd' horigin
    rw [modifyDescriptor, List.getElem?_modify] at hd'
    obtain ⟨d, hd, rfl⟩ := Option.map_eq_some_iff.mp hd'
    refine hs id' d hd fun heq => horigin ?_
    split_ifs
    · rw [hf, heq]
    · exact heq
  -- Before the merge every descriptor is a runtime binding.
  have hfresh : Mapped { registry := r } := fun id d hd horigin =>
    absurd (hbound d (List.mem_of_getElem? hd)) horigin
  refine andThen_invariant (P := Mapped) (andThen_invariant (P := Mapped)
    (forEach_invariant (P := Mapped) (fun s cd _ hs => ?_) hfresh) fun s hs =>
      forEach_invariant (P := Mapped) (fun s pb _ hs => ?_) hs) fun s hs =>
      andThen_invariant (P := Mapped)
        (forEach_invariant (P := Mapped) (fun s link _ hs => ?_) hs) fun s hs =>
        forEach_invariant (P := Mapped) (fun s link _ hs => ?_) hs
  -- A discovered descriptor enters the identity map together with the list.
  · unfold mergeContribution
    split
    · have hids := mergeNew_identities s cd
      exact hgrow hs rfl (fun _ hid => hids ▸ List.mem_append_left _ hid)
        fun _ => hids ▸ List.mem_append_right _ (List.mem_singleton_self _)
    · split
      · split <;> exact hs
      · exact hs
  -- A binding gets no identity and needs none.
  · simp only [mergePendingSingleton]
    split_ifs
    · exact hs
    · exact hgrow hs rfl (fun _ hid => hid) fun horigin => absurd rfl horigin
  · unfold linkFactory
    split
    · exact hs
    · exact hmodify s _ _ (fun _ => rfl) hs
  · unfold linkAlias
    split
    · exact hs
    · exact hmodify s _ _ (fun _ => rfl) hs

end Registry

namespace Startup

open BeanContext
open Registry (Retained GrownByBound)

variable {b : BeanContext} {s s₁ t : State} {fs : List Frame} {as before : List Action}
  {waiting : List ListenerToken}

/-! ## Nothing is claimed between the starts -/

/-- The singletons that are claimed are under construction in the functions under way. -/
def State.Backed (s : State) : Prop := s.materializing.Subperm (s.stack.filterMap Frame.claimed?)

theorem backed_rollback (s : State) (fs : List Frame) : (s.rollback.setStack fs).Backed :=
  List.nil_subperm

theorem backed_enterEager (h : s.materializing.Subperm (fs.filterMap Frame.claimed?))
    (ds : List DescriptorId) : (enterEager s fs ds).Backed := by
  induction ds with
  | nil => exact h
  | cons d ds ih =>
    rw [enterEager]
    split_ifs
    · exact ih
    · exact backed_rollback s fs
    · exact (List.subperm_cons d).mpr h

theorem backed_enterBound (h : s.materializing.Subperm (fs.filterMap Frame.claimed?))
    (sbs : List StartBound) : (enterBound s fs sbs).Backed := by
  cases sbs with
  | nil =>
    exact backed_enterEager (s := s.setCore { s.core with startLifecyclePending := [] }) h _
  | cons sb rest => exact h

theorem backed_enterStart (h : s.materializing.Subperm (fs.filterMap Frame.claimed?)) :
    (enterStart s fs).Backed := by
  unfold enterStart
  split_ifs
  · exact h
  · exact backed_enterBound (s := s.flush) h _

theorem backed_goOn (h : s.materializing.Subperm (fs.filterMap Frame.claimed?)) :
    (goOn s fs).Backed := by
  unfold goOn
  split
  · next rest fs =>
    have hfs : s.materializing.Subperm (fs.filterMap Frame.claimed?) := h
    exact backed_enterEager hfs rest
  · exact h

theorem backed_passOn (h : s.materializing.Subperm (fs.filterMap Frame.claimed?)) :
    (passOn s fs).Backed := by
  unfold passOn
  split
  · exact backed_rollback s _
  · exact h

theorem State.Backed.step (h : s.Backed) {a : Action} (hstep : Startup.step s a = some t) :
    t.Backed := by
  -- A frame without a claim: what lies under it backs the same claims.
  have htop : ∀ {f : Frame} {fs : List Frame}, f.claimed? = none → s.stack = f :: fs →
      s.materializing.Subperm (fs.filterMap Frame.claimed?) := by
    intro f fs hclaimed hstack
    have hb := h
    rw [State.Backed, hstack, List.filterMap_cons_none hclaimed] at hb
    exact hb
  have hnext : ∀ {f f' : Frame} {fs : List Frame}, f.claimed? = none → f'.claimed? = none →
      s.stack = f :: fs → s.materializing.Subperm ((f' :: fs).filterMap Frame.claimed?) := by
    intro f f' fs hclaimed hclaimed' hstack
    rw [List.filterMap_cons_none hclaimed']
    exact htop hclaimed hstack
  -- Leaving a constructor gives up the claim and its frame together.
  have hleave : ∀ {d : DescriptorId} {fs : List Frame}, s.stack = .constructing d :: fs →
      (s.materializing.erase d).Subperm (fs.filterMap Frame.claimed?) := by
    intro d fs hstack
    have hb := List.Subperm.erase d h
    rw [hstack] at hb
    have hclaims : (Frame.constructing d :: fs).filterMap Frame.claimed? =
        d :: fs.filterMap Frame.claimed? := rfl
    rwa [hclaims, List.erase_cons_head] at hb
  cases a with
  -- The frames pushed by a start claim nothing.
  | start =>
    simp only [Startup.step] at hstep
    split_ifs at hstep with hs hstack <;> obtain rfl := Option.some.inj hstep
    · exact backed_enterStart (s := { s with again := true }) h
    -- A rollback clears the claims.
    · unfold firstStart
      split
      · exact backed_enterStart (s := { s.setCore _ with submitted := _, again := false }) h
      · exact backed_rollback (s.setCore _) s.stack
  | on token =>
    obtain rfl := Option.some.inj hstep
    split_ifs <;> exact h
  | call c =>
    obtain ⟨-, rfl⟩ := call_step hstep
    exact h
  | enter =>
    obtain ⟨-, ⟨⟩⟩ := Option.ite_none_right_eq_some.mp hstep
    exact h
  | materialize d =>
    obtain ⟨-, ⟨⟩⟩ := Option.ite_none_right_eq_some.mp hstep
    exact (List.subperm_cons d).mpr h
  | constructed mem =>
    simp only [Startup.step] at hstep
    split at hstep
    · next d fs hstack =>
      obtain rfl := Option.some.inj hstep
      have hfs := hleave hstack
      exact hfs
    · cases hstep
  -- A callback returns: the frame on top is replaced or popped, and it had no claim.
  | returns =>
    have hstep : returnStep s = some t := hstep
    unfold returnStep at hstep
    split at hstep <;> obtain ⟨⟩ := hstep <;> rename_i hstack
    · exact hnext rfl rfl hstack
    · exact backed_enterBound (htop rfl hstack) _
    · exact hnext rfl rfl hstack
    · exact backed_enterBound (htop rfl hstack) _
    · exact hnext rfl rfl hstack
    · exact hnext rfl rfl hstack
    · exact backed_goOn (htop rfl hstack)
    · exact htop rfl hstack
  | throws =>
    have hstep : throwStep s = some t := hstep
    unfold throwStep at hstep
    -- A callback or a constructor throws: the start rolls back or the call passes the exception
    -- on.
    split at hstep <;> obtain ⟨⟩ := hstep <;> rename_i hstack
    · exact backed_rollback s _
    · exact backed_rollback s _
    · exact backed_passOn (s := { s with materializing := s.materializing.erase _ }) (hleave hstack)
    · exact backed_passOn (htop rfl hstack)
    · exact backed_passOn (htop rfl hstack)

/-! ## The attempts to start -/

/-- Steps after the merge retain the table. -/
theorem retained_step {r : Registry} (h : Retained r s.core) {a : Action}
    (hstep : step s a = some t) : Retained r t.core := by
  cases step_core hstep with
  | call c ha hc hcontext hstack =>
    have hcore : t.core = (s.context.exec c).state.core := congrArg BeanContext.core hcontext
    rw [hcore]
    exact h.trans_grown (s.context.exec_continues c hc).descriptors
      (s.context.exec_beanContextDescId hc) (exec_stdSort s.context c hc)
  | start hnot hstack heq =>
    subst heq
    obtain ⟨hsame, -⟩ := firstStart_core s
    obtain ⟨id, hid, -⟩ := h.merged
    rcases Registry.start_cases s.core s.context.self with ⟨hs, -⟩ | ⟨descId, -, -, heq⟩ |
      ⟨-, hnone, -⟩
    · rw [hnot] at hs
      cases hs
    · rw [heq] at hsame
      exact h.trans_same hsame.descriptors hsame.beanContextDescId hsame.stdSort
    · rw [hnone] at hid
      cases hid
  | same hsame hbegun =>
    exact h.trans_same hsame.descriptors hsame.beanContextDescId hsame.stdSort
  | idle hcore hstack => rwa [hcore]

/-- A start of a registry that is not started, up to the first callback. -/
theorem sweep_firstStart (hstack : s.stack = []) (hm : s.materializing = [])
    (hnot : s.core.started = false) {core : Registry}
    (hstart : s.core.start s.context.self = ⟨core, none⟩)
    (hunbuilt : ∀ d ∈ core.eagerSingletons, core.singletons.instances d = none) :
    (firstStart s).core = { core with beanContextStartLifecyclePending := false } ∧
      Sweep core.eagerSingletons core.priorityOf s.effects (firstStart s) ∧
      UnderWay core.eagerSingletons (firstStart s) ∧
      Ordered core.eagerSingletons core.priorityOf s.effects (firstStart s) [] (firstStart s) := by
  obtain ⟨hstarted, -, hflag, hsize⟩ := Registry.begun_start hnot hstart
  -- The first callback of the start is under way and nothing else has happened.
  have heq : firstStart s =
      { context := s.context.withCore { core with beanContextStartLifecyclePending := false }
        deferredListeners := []
        listeners := s.listeners ++ s.deferredListeners
        materializing := []
        stack := [.beanContext .onInitialized]
        effects := s.effects ++ [.dispatched s.context.self .onInitialized]
        submitted := core.pending } := by
    unfold firstStart
    rw [hstart]
    refine (if_pos hflag).trans ?_
    simp only [hstack, State.flush, State.setCore, State.perform, State.setStack, hm]
    rfl
  -- Nothing is built by then.
  have hsince : built (since s.effects (firstStart s)) = [] := by
    rw [heq, since, List.drop_left]
    rfl
  rw [heq] at hsince ⊢
  refine ⟨rfl, ⟨hstarted, rfl, fun _ _ => rfl, fun d hd => ?_, rfl, List.nodup_nil,
    fun _ _ h => absurd h List.not_mem_nil, List.prefix_append _ _, fun d hd => ?_,
    .call (by rintro _ ⟨⟩) (by rintro _ ⟨⟩) .nil⟩, .inl ⟨_, rfl, rfl⟩, ?_⟩
  -- The vector covers every eager singleton.
  · exact (Registry.lt_of_mem_eagerSingletons hd).trans_le hsize
  -- No eager singleton has an instance yet.
  · have hnone : core.singletons.find d = none := by
      rw [SingletonStore.find, hunbuilt d hd, ite_self]
    rw [hsince]
    change 0 = if (core.singletons.find d).isSome then 1 else 0
    rw [hnone]
    rfl
  -- The order holds of the empty history.
  · rintro d - d' - - (hclaimed | hbuilt)
    · cases (List.mem_singleton.mp hclaimed)
    · rw [hsince] at hbuilt
      cases hbuilt

/-- A start that is tried again goes by an array of singletons without instances, except for the
    context. -/
theorem instances_restart {r : Registry} (ctx : Addr) {descId : DescriptorId}
    (hnot : r.isEager descId = false) {d : DescriptorId}
    (hd : d ∈ (r.restart ctx descId).eagerSingletons) :
    (r.restart ctx descId).singletons.instances d = none := by
  have heager : r.isEager d = true := Registry.mem_eagerSingletons.mp hd
  have hne : d ≠ descId := by
    rintro rfl
    rw [hnot] at heager
    cases heager
  exact Function.update_of_ne hne _ _

/-! ## Discovered singletons -/

open InjectionPoints Registry

/-- A context that has not been started, with the listeners that wait for the start. -/
def idle (b : BeanContext) (waiting : List ListenerToken) : State :=
  { context := b, deferredListeners := waiting }

/-- A context on which `start` has not been called. -/
def Unattempted (b : BeanContext) : Prop :=
  ∃ S self calls, .start ∉ calls ∧ b = execAll (.fresh S self) calls

theorem Unattempted.reachable (h : Unattempted b) : b.Reachable := by
  obtain ⟨S, self, calls, -, rfl⟩ := h
  exact ⟨S, self, calls, rfl⟩

/-- Without a start, only bound beans have descriptors. -/
theorem Unattempted.core (h : Unattempted b) : b.core.started = false ∧
    b.core.beanContextDescId = none ∧ ∀ d ∈ b.core.descriptors, d.origin = .runtimeBinding := by
  obtain ⟨S, self, calls, hcalls, rfl⟩ := h
  induction calls using List.reverseRecOn with
  | nil => exact ⟨rfl, rfl, List.forall_mem_nil _⟩
  | append_singleton calls c ih =>
    obtain ⟨hstarted, hid, hbound⟩ := ih fun hmem => hcalls (List.mem_append_left _ hmem)
    have hc : c ≠ .start := by
      rintro rfl
      exact hcalls (List.mem_append_right _ (List.mem_singleton_self _))
    have hlast : execAll (.fresh S self) (calls ++ [c]) =
        ((execAll (.fresh S self) calls).exec c).state := by simp [execAll]
    rw [hlast]
    have hcontinues := (execAll (.fresh S self) calls).exec_continues c hc
    refine ⟨hcontinues.started.trans hstarted, (exec_beanContextDescId _ hc).trans hid,
      fun d hd => ?_⟩
    obtain ⟨ds, hds, hnew⟩ := hcontinues.descriptors
    rw [hds] at hd
    exact (List.mem_append.mp hd).elim (hbound d) (hnew d)

/-- The identity and the priority of a singleton that is marked with `lazy = false`: of a type, or
    of the product of a factory. -/
def eagerMarker (H : IdentityHashes) : DiscoveredEntity → Option (Identity × ℤ)
  | .annotatedType type _ ann _ =>
    if ann.lifetime = .singleton ∧ ann.lazy = false then
      some (H.forType type.name ann.beanName ann.lifetime, ann.priority)
    else none
  | .factory .. => none
  | .factoryProduct declaringFactory method ann _ _ _ _ =>
    if ann.lifetime = .singleton ∧ ann.lazy = false then
      some (H.forProduct method declaringFactory.name ann.beanName ann.lifetime, ann.priority)
    else none

/-- The descriptor that the merge makes for the contributions with this identity. -/
def descriptorOf (r : Registry) (identity : Identity) : Option DescriptorId :=
  (mergeAndLink { registry := r }).state.identityMap.lookup identity

variable {H : IdentityHashes} {entities : List DiscoveredEntity}

/-- Of the contributions with the identity of a marked singleton, the first one is eager, with its
    priority. -/
def KeepsMarkers (H : IdentityHashes) (entities : List DiscoveredEntity)
    (pending : List ContributedDescriptor) : Prop :=
  ∀ e ∈ entities, ∀ identity priority, eagerMarker H e = some (identity, priority) →
    ∃ first ∈ newContributions [] pending, first.identity = identity ∧
      first.lifetime = .singleton ∧ first.priority = priority ∧ first.lazy = false ∧
      first.isExposedAlias = false

/-- A run in which a start returns normally. The context `b` has been set up without a start, and
    the actions `before` are nothing or begin with the first start, and lead to a registry that is
    not started; then `start` is called and returns, and no start that its callbacks have called
    has thrown. -/
structure Returned (H : IdentityHashes) (entities : List DiscoveredEntity) (b : BeanContext)
    (waiting : List ListenerToken) (before as : List Action) (s₁ s : State) : Prop where
  setUp : Unattempted b
  discovered : ∀ cd ∈ b.core.pending, cd ∈ makeAllDescriptors H entities
  attempts : before = [] ∨ ∃ rest, before = .start :: rest
  earlier : machine.run (idle b waiting) before = some s₁
  unstarted : s₁.core.started = false
  run : machine.run s₁ (.start :: as) = some s
  returned : ¬s.Starting
  normal : ¬Thrown s₁.effects s

/-- Each singleton that is marked with `lazy = false` has been constructed exactly once by the
    start, no other eager singleton has, and those of higher priority have been constructed first,
    unless the other one was needed by a bean of at least that priority. -/
structure BuiltAtStart (H : IdentityHashes) (entities : List DiscoveredEntity) (b : BeanContext)
    (as : List Action) (s₁ s : State) : Prop where
  once : ∀ e ∈ entities, ∀ identity priority, eagerMarker H e = some (identity, priority) →
    ∃ id, descriptorOf b.core identity = some id ∧ (built (since s₁.effects s)).count id = 1
  only : ∀ id ∈ built (since s₁.effects s), id ∈ s.core.eagerSingletons →
    ∃ e ∈ entities, ∃ identity priority, eagerMarker H e = some (identity, priority) ∧
      descriptorOf b.core identity = some id
  order : ∀ e ∈ entities, ∀ e' ∈ entities, ∀ identity identity' priority priority',
    eagerMarker H e = some (identity, priority) → eagerMarker H e' = some (identity', priority') →
    priority' < priority → ∀ id id', descriptorOf b.core identity = some id →
      descriptorOf b.core identity' = some id' → Precedes (built (since s₁.effects s)) id id' ∨
        NeededBy s₁ (.start :: as) priority id'

/-- The descriptor of a marked singleton is eager. -/
theorem eager_of_marker (hb : b.Reachable) (hfirst : b.core.beanContextDescId = none)
    (hok : b.start.failure = none) (hkeeps : KeepsMarkers H entities b.core.pending)
    {e : DiscoveredEntity} (he : e ∈ entities) {identity : Identity} {priority : ℤ}
    (hmarker : eagerMarker H e = some (identity, priority)) :
    ∃ id, descriptorOf b.core identity = some id ∧ id ∈ b.start.state.core.eagerSingletons ∧
      b.start.state.core.priorityOf id = priority := by
  obtain ⟨hlink, hcore⟩ := hb.sound.start_eq hfirst hok
  obtain ⟨cd, hcd, rfl, hlifetime, hpriority, hlazy, halias⟩ :=
    hkeeps e he identity priority hmarker
  obtain ⟨id, d, hid, hd, hentry, hdlazy, hprimary, -⟩ :=
    (placed_mergeAndLink hb.interned hlink).2 cd hcd
  have hlt := (List.getElem?_eq_some_iff.mp hd).1
  refine ⟨id, hid, ?_, ?_⟩
  · have hdlifetime : d.lifetime = cd.lifetime := congrArg Entry.lifetime hentry
    have horigin : d.origin = cd.origin := congrArg Entry.origin hentry
    rw [hcore, mem_eagerSingletons, isEager_finishStart, List.getElem?_append_left hlt, hd]
    simp [hdlifetime, hlifetime, horigin, cd.discovered, hdlazy, hlazy, hprimary, halias]
  · have hdpriority : d.priority = cd.priority := congrArg Entry.priority hentry
    rw [hcore, priorityOf_finishStart_of_lt _ _ hlt, Registry.priorityOf, hd]
    exact hdpriority.trans hpriority

/-- An eager contribution is that of a marked type, or of a base that it exposes. -/
theorem marker_of_eager {cd : ContributedDescriptor} (hcd : cd ∈ makeAllDescriptors H entities)
    (hlifetime : cd.lifetime = .singleton) (hlazy : cd.lazy = false) :
    ∃ e ∈ entities, ∃ identity priority, eagerMarker H e = some (identity, priority) ∧
      if cd.isExposedAlias then cd.aliasOfPrimaryIdentity = some identity
      else cd.identity = identity := by
  obtain ⟨e, he, hcd⟩ := List.mem_flatMap.mp hcd
  refine ⟨e, he, ?_⟩
  cases e with
  | annotatedType type bases ann members =>
    rcases List.mem_cons.mp hcd with rfl | hcd
    · exact ⟨_, _, if_pos ⟨hlifetime, hlazy⟩, rfl⟩
    · obtain ⟨base, -, rfl⟩ := List.mem_map.mp hcd
      exact ⟨_, _, if_pos ⟨hlifetime, hlazy⟩, rfl⟩
  | factory type members =>
    rw [List.mem_singleton.mp hcd] at hlazy
    cases hlazy
  | factoryProduct declaringFactory method ann params productType productAnn members =>
    rw [List.mem_singleton.mp hcd] at hlazy
    cases hlazy

/-- An eager singleton is that of a marked type. -/
theorem marked_of_eager (hb : b.Reachable) (hfirst : b.core.beanContextDescId = none)
    (hbound : ∀ d ∈ b.core.descriptors, d.origin = .runtimeBinding) (hok : b.start.failure = none)
    (hdiscovered : ∀ cd ∈ b.core.pending, cd ∈ makeAllDescriptors H entities) {id : DescriptorId}
    (hid : id ∈ b.start.state.core.eagerSingletons) :
    ∃ e ∈ entities, ∃ identity priority, eagerMarker H e = some (identity, priority) ∧
      descriptorOf b.core identity = some id := by
  obtain ⟨hlink, hcore⟩ := hb.sound.start_eq hfirst hok
  obtain ⟨hdistinct, hplaced⟩ := placed_mergeAndLink hb.interned hlink
  rw [hcore, mem_eagerSingletons, isEager_finishStart] at hid
  obtain ⟨d, hd⟩ : ∃ d, ((mergeAndLink { registry := b.core }).state.registry.descriptors ++
      [contextDescriptor (mergeAndLink { registry := b.core }).state.registry.contextTypeId])[id]? =
        some d := Option.ne_none_iff_exists'.mp fun hnone => by simp [hnone] at hid
  simp only [hd, Option.any_some, Bool.and_eq_true, bne_iff_ne, beq_iff_eq,
    Bool.not_eq_true'] at hid
  obtain ⟨⟨⟨hlifetime, horigin⟩, hlazy⟩, hprimary⟩ := hid
  have hold : (mergeAndLink { registry := b.core }).state.registry.descriptors[id]? = some d := by
    rcases List.mem_append.mp (List.mem_of_getElem? hd) with hmem | hmem
    · by_cases hlt : id < (mergeAndLink { registry := b.core }).state.registry.descriptors.length
      · rwa [List.getElem?_append_left hlt] at hd
      · rw [List.getElem?_append_right (Nat.le_of_not_lt hlt)] at hd
        have hlast := List.mem_of_getElem? hd
        rw [List.mem_singleton.mp hlast] at horigin
        exact absurd rfl horigin
    · rw [List.mem_singleton.mp hmem] at horigin
      exact absurd rfl horigin
  -- The descriptor is the one of a contribution.
  obtain ⟨⟨identity, id'⟩, hmem, rfl⟩ :=
    List.mem_map.mp (mapped_mergeAndLink hbound id d hold horigin)
  have hkeys := map_fst_mergeAndLink hlink
  have hlookup : (mergeAndLink { registry := b.core }).state.identityMap.lookup identity =
      some id' :=
    (lookup_eq_some_iff_mem (hkeys ▸ (distinct_newContributions [] _).1)).mpr hmem
  have hkey : identity ∈ (mergeAndLink { registry := b.core }).state.identityMap.map Prod.fst :=
    List.mem_map_of_mem hmem
  rw [hkeys] at hkey
  obtain ⟨cd, hcd, rfl⟩ := List.mem_map.mp hkey
  obtain ⟨id, d', hid', hd', hentry, hdlazy, hdprimary, -⟩ := hplaced cd hcd
  obtain rfl := Option.some.inj (hid'.symm.trans hlookup)
  obtain rfl := Option.some.inj (hd'.symm.trans hold)
  have hdlifetime : d'.lifetime = cd.lifetime := congrArg Entry.lifetime hentry
  obtain ⟨e, he, identity, priority, hmarker, hcase⟩ :=
    marker_of_eager (hdiscovered cd (mem_of_mem_newContributions hcd))
      (hdlifetime ▸ hlifetime) (hdlazy ▸ hlazy)
  refine ⟨e, he, identity, priority, hmarker, ?_⟩
  rw [hprimary] at hdprimary
  split_ifs at hdprimary hcase with halias
  · -- An alias is its own primary only if its identity is that of the type.
    rw [hcase] at hdprimary
    exact hdprimary.symm
  · exact hcase ▸ hlookup

theorem step_start (hnot : s.core.started = false) (hstack : s.stack = []) :
    machine.step s .start = some (firstStart s) := by
  have hs : s.core.started ≠ true := by
    rw [hnot]
    exact Bool.false_ne_true
  exact (if_neg hs).trans (if_pos hstack)

/-- A start that has thrown has thrown for the rest of the run. -/
theorem thrown_run {pre : List Effect} (hpre : pre <+: s.effects) (h : Thrown pre s)
    (hrun : machine.run s as = some t) : Thrown pre t := by
  have hkeep : ∀ s a s', pre <+: s.effects ∧ Thrown pre s → machine.step s a = some s' →
      pre <+: s'.effects ∧ Thrown pre s' := fun s a s' hs hstep => thrown_step hs.1 hs.2 hstep
  exact (Machine.run_invariant hkeep ⟨hpre, h⟩ hrun).2

namespace Returned

theorem unclaimed (h : Returned H entities b waiting before as s₁ s) :
    s₁.stack = [] ∧ s₁.materializing = [] := by
  have hidle : (idle b waiting).Backed := List.nil_subperm
  have hbacked : s₁.Backed :=
    Machine.run_invariant (fun _ _ _ hb hstep => hb.step hstep) hidle h.earlier
  have hstack : s₁.stack = [] := by
    by_contra hstack
    have hs : ¬s₁.core.started = true := by simp [h.unstarted]
    have hrun := h.run
    have hnone : machine.step s₁ .start = none := (if_neg hs).trans (if_neg hstack)
    rw [Machine.run_cons, hnone] at hrun
    cases hrun
  rw [State.Backed, hstack] at hbacked
  exact ⟨hstack, List.subperm_nil.mp hbacked⟩

/-- A start that returns normally has got through the merge. -/
theorem merged (h : Returned H entities b waiting [] as s₁ s) : b.start.failure = none := by
  obtain ⟨hstack, -⟩ := h.unclaimed
  obtain rfl := Option.some.inj h.earlier
  by_contra hfails
  obtain ⟨failure, hfailure⟩ := Option.ne_none_iff_exists'.mp hfails
  have hrun := h.run
  rw [Machine.run_cons, step_start h.unstarted hstack, Option.bind_some] at hrun
  have hthrown : Thrown [] (firstStart (idle b waiting)) := by
    have hcall : (idle b waiting).core.start (idle b waiting).context.self =
        ⟨b.start.state.core, some failure⟩ := by
      rw [← hfailure]
      rfl
    unfold firstStart
    rw [hcall]
    exact thrown_rollback List.nil_prefix []
  exact h.normal (thrown_run List.nil_prefix hthrown hrun)

/-- The registry after an earlier attempt that got through the merge. -/
theorem retained (h : Returned H entities b waiting (.start :: before) as s₁ s)
    (hmerges : b.start.failure = none) : Retained b.start.state.core s₁.core := by
  obtain ⟨hnot, hfirst, -⟩ := h.setUp.core
  obtain ⟨hlink, hcore⟩ := h.setUp.reachable.sound.start_eq hfirst hmerges
  have hstart : (idle b waiting).core.start (idle b waiting).context.self =
      ⟨b.start.state.core, none⟩ := by
    rw [← hmerges]
    rfl
  have hunbuilt : ∀ d ∈ b.start.state.core.eagerSingletons,
      b.start.state.core.singletons.instances d = none := by
    intro d hd
    rw [hcore] at hd ⊢
    exact instances_finishStart (boundApart_mergeAndLink b.core) b.self hd
  obtain ⟨hflag, -⟩ := sweep_firstStart (s := idle b waiting) rfl rfl hnot hstart hunbuilt
  have hrun := h.earlier
  rw [Machine.run_cons, step_start hnot rfl, Option.bind_some] at hrun
  have hretained : Retained b.start.state.core (firstStart (idle b waiting)).core := by
    have hmerge : Retained b.start.state.core b.start.state.core :=
      hcore ▸ retained_finishStart _ b.self
    rw [hflag]
    exact hmerge.trans_same rfl rfl rfl
  exact Machine.run_invariant (P := fun t => Retained b.start.state.core t.core)
    (fun _ _ _ hs hstep => retained_step hs hstep) hretained hrun

/-- The start of the run goes through the list of the first attempt, and none of its singletons is
    there. -/
theorem start_eq (h : Returned H entities b waiting before as s₁ s)
    (hmerges : b.start.failure = none) :
    ∃ core, s₁.core.start s₁.context.self = ⟨core, none⟩ ∧
      core.eagerSingletons = b.start.state.core.eagerSingletons ∧
      (∀ d ∈ core.eagerSingletons, core.priorityOf d = b.start.state.core.priorityOf d) ∧
      ∀ d ∈ core.eagerSingletons, core.singletons.instances d = none := by
  -- The first attempt of the run: the core is the one start() leaves.
  obtain rfl | ⟨rest, rfl⟩ := h.attempts
  · obtain rfl := Option.some.inj h.earlier
    obtain ⟨hlink, hcore⟩ := h.setUp.reachable.sound.start_eq h.setUp.core.2.1 hmerges
    refine ⟨b.start.state.core, ?_, rfl, fun _ _ => rfl, fun d hd => ?_⟩
    · rw [← hmerges]
      rfl
    · rw [hcore] at hd ⊢
      exact instances_finishStart (boundApart_mergeAndLink b.core) b.self hd
  -- A later attempt: the descriptors were merged by an earlier one and are only begun again.
  · have hretained := h.retained hmerges
    obtain ⟨descId, hid, -, hnot⟩ := hretained.merged
    have hrestart : s₁.core.start s₁.context.self =
        ⟨s₁.core.restart s₁.context.self descId, none⟩ := by
      -- The retry returns early from the merge, since the context's descriptor is there.
      rcases start_cases s₁.core s₁.context.self with ⟨hs, -⟩ | ⟨descId', -, hid', heq⟩ |
        ⟨-, hnone, -⟩
      · exact absurd hs (by simp [h.unstarted])
      · obtain rfl := Option.some.inj (hid.symm.trans hid')
        exact heq
      · exact absurd (hid.symm.trans hnone) (Option.some_ne_none _)
    -- Bindings made in between are appended, which moves no eager singleton.
    have hgrown : GrownByBound b.start.state.core (s₁.core.restart s₁.context.self descId) :=
      hretained.grown
    have heagers := hgrown.eagerSingletons hretained.stdSort
    refine ⟨_, hrestart, heagers, fun d hd => ?_, fun d hd => instances_restart _ hnot hd⟩
    exact hgrown.priorityOf (lt_of_mem_eagerSingletons (heagers ▸ hd))

end Returned

/-- If the first attempt gets through the merge,
    the first contributions of the marked singletons are
    eager, and user code keeps to the order while the start announces the context bean and the bound
    singletons, then the marked singletons are built at the start. -/
theorem built_at_start (h : Returned H entities b waiting before as s₁ s)
    (hmerges : before ≠ [] → b.start.failure = none)
    (hkeeps : KeepsMarkers H entities b.core.pending)
    (hG : machine.Along Orderly s₁ (.start :: as)) : BuiltAtStart H entities b as s₁ s := by
  have hok : b.start.failure = none := by
    by_cases hbefore : before = []
    · subst hbefore
      exact h.merged
    · exact hmerges hbefore
  obtain ⟨hnot, hfirst, hbound⟩ := h.setUp.core
  have hreachable := h.setUp.reachable
  obtain ⟨hstack, hm⟩ := h.unclaimed
  obtain ⟨core, hstart, heagers, hprio, hunbuilt⟩ := h.start_eq hok
  obtain ⟨hcore, hsweep, hunder, hord⟩ := sweep_firstStart hstack hm h.unstarted hstart hunbuilt
  have hstep := step_start h.unstarted hstack
  have hrun := h.run
  rw [Machine.run_cons, hstep, Option.bind_some] at hrun
  have hG := hG.2
  rw [hstep] at hG
  obtain ⟨-, hthrown | ⟨hs, hend, hordered⟩⟩ := hsweep.run hunder hord hrun hG
  · exact absurd hthrown h.normal
  -- The start has gone through its list.
  have hall : ∀ d ∈ core.eagerSingletons, s.Found d := by
    refine hend.resolve_left ?_
    rintro ⟨f, hlast, hf⟩
    exact h.returned ⟨f, List.mem_of_getLast? hlast, hf⟩
  have hmarked : ∀ e ∈ entities, ∀ identity priority, eagerMarker H e = some (identity, priority) →
      ∃ id, descriptorOf b.core identity = some id ∧ id ∈ core.eagerSingletons ∧
        core.priorityOf id = priority := by
    intro e he identity priority hmarker
    obtain ⟨id, hid, hmem, hpriority⟩ :=
      eager_of_marker hreachable hfirst hok hkeeps he hmarker
    rw [← heagers] at hmem
    exact ⟨id, hid, hmem, (hprio id hmem).trans hpriority⟩
  refine ⟨fun e he identity priority hmarker => ?_, fun id _ hid => ?_, ?_⟩
  · obtain ⟨id, hid, heager, -⟩ := hmarked e he identity priority hmarker
    exact ⟨id, hid, (hs.once id heager).trans (if_pos (hall id heager))⟩
  · rw [hs.eager, heagers] at hid
    exact marked_of_eager hreachable hfirst hbound hok h.discovered hid
  · intro e he e' he' identity identity' priority priority' hmarker hmarker' hlt _ _ hd hd'
    obtain ⟨id, hid, heager, hpriority⟩ := hmarked e he identity priority hmarker
    obtain ⟨id', hid', heager', hpriority'⟩ := hmarked e' he' identity' priority' hmarker'
    obtain rfl := Option.some.inj (hid.symm.trans hd)
    obtain rfl := Option.some.inj (hid'.symm.trans hd')
    have hbuilt' := (hs.mem_built_iff heager').mpr (hall _ heager')
    have hlt' : core.priorityOf id' < core.priorityOf id := by
      rwa [hpriority, hpriority']
    refine (hordered id heager id' heager' hlt' (.inr hbuilt')).imp (fun hfirst => ?_) ?_
    · exact hfirst.2 hbuilt'
    · -- The start is the first step of the run.
      rintro ⟨as₁, u, hprefix, hrun₁, hneeded⟩
      rw [hpriority] at hneeded
      refine ⟨.start :: as₁, u, (List.prefix_cons_inj _).mpr hprefix, ?_, hneeded⟩
      rw [Machine.run_cons, hstep, Option.bind_some, hrun₁]

/-! ## Examples -/

/-- Two marked singletons. The second one has the higher priority, and exposes a base. -/
def kiosk : List DiscoveredEntity :=
  [.annotatedType ⟨"Till", 1⟩ [] { lazy := false, hasLifetimeMarker := true } {},
    .annotatedType ⟨"Printer", 2⟩ [⟨"Device", 3⟩]
      { lazy := false, priority := 5, hasLifetimeMarker := true } {}]

/-- A customer is bound to a scope before the discovery. -/
def kioskContext : BeanContext :=
  execAll .initial [.bindSession 0 ⟨"Customer", 4⟩ "" 0 9,
    .discover (makeAllDescriptors lengths kiosk)]

/-- The constructor of the printer throws, and then paper is bound. -/
def paperJam : List Action :=
  [.start, .returns, .returns, .throws, .call (.bindSingleton ⟨"Paper", 5⟩ "" 0 11)]

/-- The start announces the context bean, and then each of the singletons that it constructs. -/
def openKiosk : List Action :=
  [.returns, .returns, .constructed 7, .returns, .returns, .returns, .constructed 8, .returns,
    .returns, .returns]

theorem kiosk_built : ∃ s₁ s, Returned lengths kiosk kioskContext [] paperJam openKiosk s₁ s ∧
    built (since s₁.effects s) = [2, 1] ∧
      BuiltAtStart lengths kiosk kioskContext openKiosk s₁ s := by
  obtain ⟨s₁, s, hearlier, hnot, hrun, hreturned, hnormal, hbuilt⟩ : ∃ s₁ s,
      machine.run (idle kioskContext []) paperJam = some s₁ ∧ s₁.core.started = false ∧
        machine.run s₁ (.start :: openKiosk) = some s ∧ ¬s.Starting ∧
          .startThrew ∉ since s₁.effects s ∧ built (since s₁.effects s) = [2, 1] :=
    ⟨_, _, rfl, rfl, rfl, by decide, by decide, by decide⟩
  have h : Returned lengths kiosk kioskContext [] paperJam openKiosk s₁ s :=
    ⟨⟨_, 0, [.bindSession .., .discover _], by simp, rfl⟩, fun _ hcd => hcd, .inr ⟨_, rfl⟩,
      hearlier, hnot, hrun, hreturned, hnormal⟩
  refine ⟨s₁, s, h, hbuilt, built_at_start h (fun _ => rfl) ?_ ?_⟩
  · intro e he identity priority hmarker
    rcases List.mem_cons.mp he with rfl | he
    · obtain ⟨⟩ := hmarker
      exact ⟨_, List.mem_cons_self, rfl, rfl, rfl, rfl, rfl⟩
    · obtain rfl := List.mem_singleton.mp he
      obtain ⟨⟩ := hmarker
      exact ⟨_, List.mem_cons_of_mem _ List.mem_cons_self, rfl, rfl, rfl, rfl, rfl⟩
  · -- No user code asks for a singleton.
    refine Machine.along_iff.mpr fun k t a _ ha => ?_
    have hmem : a ∈ Action.start :: openKiosk := List.mem_of_getElem? ha
    simp only [openKiosk, List.mem_cons, List.not_mem_nil, or_false] at hmem
    rcases hmem with rfl | rfl | rfl | rfl | rfl | rfl | rfl | rfl | rfl | rfl | rfl <;> trivial

/-- A factory, and its producer method for a singleton that is marked with `lazy = false`. -/
def bakery : List DiscoveredEntity :=
  [.factory ⟨"Bakery", 1⟩ {},
    .factoryProduct ⟨"Bakery", 1⟩ "bake" { lazy := false, hasLifetimeMarker := true } []
      ⟨"Bread", 2⟩ {} {}]

def bakeryContext : BeanContext :=
  execAll .initial [.discover (makeAllDescriptors lengths bakery)]

/-- The start returns normally and has constructed nothing. -/
theorem product_not_built : ∃ s,
    Returned lengths bakery bakeryContext [] [] [.returns, .returns] (idle bakeryContext []) s ∧
      built s.effects = [] ∧
      ¬BuiltAtStart lengths bakery bakeryContext [.returns, .returns]
        (idle bakeryContext []) s := by
  obtain ⟨s, hrun, hreturned, hnormal, hbuilt⟩ : ∃ s,
      machine.run (idle bakeryContext []) [.start, .returns, .returns] = some s ∧
        ¬s.Starting ∧ .startThrew ∉ s.effects ∧ built s.effects = [] :=
    ⟨_, rfl, by decide, by decide, by decide⟩
  have h : Returned lengths bakery bakeryContext [] [] [.returns, .returns]
      (idle bakeryContext []) s :=
    ⟨⟨_, 0, [.discover _], by simp, rfl⟩, fun _ hcd => hcd, .inl rfl, rfl, rfl, hrun, hreturned,
      hnormal⟩
  refine ⟨s, h, hbuilt, fun hbuilt' => ?_⟩
  obtain ⟨id, -, honce⟩ := hbuilt'.once _ (List.mem_cons_of_mem _ List.mem_cons_self) _ _ rfl
  have hnone : built (since (idle bakeryContext []).effects s) = [] := hbuilt
  rw [hnone] at honce
  cases honce

end Startup

end Ctorium
