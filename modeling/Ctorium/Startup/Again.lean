import Ctorium.Startup

/-!
# Starting a context again

A call of `start` on a started context does all of its work a second time, and is a no-op only if
no work is left.

* Once a start has returned, nothing is left (`Shape`), and further calls are no-ops.
* A callback or a constructor that an earlier start runs may find work left, as the constructor of
  an eager singleton does, whose object is not there (`start_in_constructor`), and a listener for
  a bound singleton, whose list is cleared when all are announced (`start_in_bound_event`).
* A call that finds no work left still releases the contributions, so a start must not throw after
  a callback that has called `start`.
* `start_again_iff`: a run meets these two conditions at all of its steps exactly if all calls on
  started contexts are no-ops, and all starts that throw keep the contributions.
-/

namespace Ctorium

namespace Registry

variable {r r' r'' : Registry}

theorem eagerSingletons_perm (r : Registry) :
    r.eagerSingletons.Perm ((List.range r.descriptors.length).filter r.isEager) := by
  have hperm := (r.stdSort.sort_perm (fun a b => decide (b.1 < a.1)) r.collectedEager).map Prod.snd
  rwa [collectedEager, List.map_map,
    show Prod.snd ∘ (fun id => (r.priorityOf id, id)) = id from rfl,
    List.map_id] at hperm

theorem mem_eagerSingletons {d : DescriptorId} : d ∈ r.eagerSingletons ↔ r.isEager d = true := by
  rw [r.eagerSingletons_perm.mem_iff, List.mem_filter, List.mem_range]
  refine and_iff_right_of_imp fun h => ?_
  unfold isEager at h
  cases hdesc : r.descriptors[d]? with
  | none =>
    rw [hdesc] at h
    cases h
  | some desc => exact (List.getElem?_eq_some_iff.mp hdesc).1

/-- The eager singletons that the registry has are there, and no bound singleton is to be
    announced. -/
structure Settled (r : Registry) : Prop where
  bound : r.startLifecyclePending = []
  eager : ∀ d ∈ r.eagerSingletons, (r.singletons.find d).isSome = true

instance : Decidable r.Settled :=
  decidable_of_iff (r.startLifecyclePending = [] ∧
    ∀ d ∈ r.eagerSingletons, (r.singletons.find d).isSome = true)
    ⟨fun h => ⟨h.1, h.2⟩, fun h => ⟨h.1, h.2⟩⟩

/-- What a start goes by is as before, but for bound beans and new singletons. -/
structure Continues (r r' : Registry) : Prop where
  started : r'.started = r.started
  startLifecyclePending : r'.startLifecyclePending = r.startLifecyclePending
  beanContextStartLifecyclePending :
    r'.beanContextStartLifecyclePending = r.beanContextStartLifecyclePending
  pending : r.started = true → r'.pending = r.pending
  descriptors : ∃ ds, r'.descriptors = r.descriptors ++ ds ∧ ∀ d ∈ ds, d.origin = .runtimeBinding
  size : r.singletons.size ≤ r'.singletons.size
  stored : ∀ d, (r.singletons.instances d).isSome = true →
    (r'.singletons.instances d).isSome = true

namespace Continues

/-- The registries agree on the fields that a start goes by. -/
theorem of_eq (hstarted : r'.started = r.started)
    (hslp : r'.startLifecyclePending = r.startLifecyclePending)
    (hflag : r'.beanContextStartLifecyclePending = r.beanContextStartLifecyclePending)
    (hpending : r.started = true → r'.pending = r.pending)
    (hdescriptors : r'.descriptors = r.descriptors) (hsingletons : r'.singletons = r.singletons) :
    Continues r r' where
  started := hstarted
  startLifecyclePending := hslp
  beanContextStartLifecyclePending := hflag
  pending := hpending
  descriptors := ⟨[], by rw [hdescriptors, List.append_nil], nofun⟩
  size := by rw [hsingletons]
  stored _ h := hsingletons ▸ h

theorem refl (r : Registry) : Continues r r := of_eq rfl rfl rfl (fun _ => rfl) rfl rfl

theorem trans (h : Continues r r') (h' : Continues r' r'') : Continues r r'' where
  started := h'.started.trans h.started
  startLifecyclePending := h'.startLifecyclePending.trans h.startLifecyclePending
  beanContextStartLifecyclePending :=
    h'.beanContextStartLifecyclePending.trans h.beanContextStartLifecyclePending
  pending hs := (h'.pending (h.started.trans hs)).trans (h.pending hs)
  descriptors := by
    obtain ⟨ds, hds, hbound⟩ := h.descriptors
    obtain ⟨ds', hds', hbound'⟩ := h'.descriptors
    refine ⟨ds ++ ds', by rw [hds', hds, List.append_assoc], fun d hd => ?_⟩
    rcases List.mem_append.mp hd with hd | hd
    · exact hbound d hd
    · exact hbound' d hd
  size := h.size.trans h'.size
  stored d hd := h'.stored d (h.stored d hd)

theorem eager (h : Continues r r') {d : DescriptorId} (hd : d ∈ r'.eagerSingletons) :
    d ∈ r.eagerSingletons := by
  obtain ⟨ds, hds, hbound⟩ := h.descriptors
  rw [mem_eagerSingletons] at hd ⊢
  unfold isEager at hd ⊢
  rw [hds, List.getElem?_append] at hd
  split at hd
  · exact hd
  · -- A descriptor that has been added is that of a bound instance.
    cases hdesc : ds[d - r.descriptors.length]? with
    | none => simp [hdesc] at hd
    | some desc =>
      have horigin := hbound desc (List.mem_of_getElem? hdesc)
      simp [hdesc, horigin] at hd

theorem find (h : Continues r r') {d : DescriptorId}
    (hd : (r.singletons.find d).isSome = true) : (r'.singletons.find d).isSome = true := by
  unfold SingletonStore.find at hd ⊢
  split at hd
  · rename_i hlt
    rw [if_pos (hlt.trans_le h.size)]
    exact h.stored d hd
  · cases hd

/-- A singleton is stored. -/
theorem store (r : Registry) (d : DescriptorId) (mem : Addr) :
    Continues r { r with singletons := r.singletons.store d mem } where
  __ := refl r
  stored e he := by
    change (Function.update r.singletons.instances d (some mem) e).isSome = true
    rcases eq_or_ne e d with rfl | hne
    · rw [Function.update_self]
      rfl
    · rwa [Function.update_of_ne hne]

theorem growSingletons (r : Registry) (object : Addr) : Continues r (r.growSingletons object) :=
  have hgrow : Continues r { r with singletons := { r.singletons with
      size := max r.singletons.size (r.descriptors.length + 1) } } :=
    { refl r with size := le_max_left _ _ }
  hgrow.trans (store _ _ _)

/-- The descriptor of a bound instance is appended. -/
theorem append {d : Descriptor} (hd : d.origin = .runtimeBinding)
    (hdescriptors : r'.descriptors = r.descriptors ++ [d]) (hstarted : r'.started = r.started)
    (hslp : r'.startLifecyclePending = r.startLifecyclePending)
    (hflag : r'.beanContextStartLifecyclePending = r.beanContextStartLifecyclePending)
    (hpending : r'.pending = r.pending) (hsingletons : r'.singletons = r.singletons) :
    Continues r r' where
  started := hstarted
  startLifecyclePending := hslp
  beanContextStartLifecyclePending := hflag
  pending _ := hpending
  descriptors := ⟨[d], hdescriptors, fun d' hd' => by rwa [List.mem_singleton.mp hd']⟩
  size := by rw [hsingletons]
  stored _ h := hsingletons ▸ h

theorem bindSingleton (r : Registry) (type : CppType) (nameId : NameId) (priority : ℤ)
    (object : Addr) : Continues r (r.bindSingleton type nameId priority object).state := by
  simp only [Registry.bindSingleton]
  split_ifs with hname hstarted
  · exact refl r
  · simp only [Registry.bindSingletonStarted]
    split_ifs
    · exact of_eq rfl rfl rfl (fun _ => rfl) rfl rfl
    · have htypes : Continues r (r.withTypes (r.adoptType type).2) :=
        of_eq rfl rfl rfl (fun _ => rfl) rfl rfl
      exact (htypes.trans (growSingletons _ object)).trans
        (append (d := boundDescriptor _ _ _ _ _) rfl rfl rfl rfl rfl rfl rfl)
  · unfold Registry.bindSingletonPending
    split_ifs
    · exact refl r
    · exact of_eq rfl rfl rfl (fun _ => rfl) rfl rfl

theorem sessionDescriptor (r : Registry) (typeId : TypeId) (nameId : NameId) (priority : ℤ) :
    Continues r (r.sessionDescriptor typeId nameId priority).2 := by
  unfold Registry.sessionDescriptor
  split
  · exact refl r
  · simp only [Registry.appendSession]
    split_ifs
    · exact append (d := { r.boundDescriptor typeId nameId priority .session with
        sessionSlot := some r.sessionSlotCount }) rfl rfl rfl rfl rfl rfl rfl
    · exact append (d := r.boundDescriptor typeId nameId priority .session) rfl rfl rfl rfl rfl
        rfl rfl

end Continues

/-! ## A start that succeeds -/

/-- What a start that begins has brought about when it succeeds. -/
structure Begun (r r' : Registry) : Prop where
  started : r'.started = true
  pending : r'.pending = r.pending
  flag : r'.beanContextStartLifecyclePending = true
  size : r'.descriptors.length ≤ r'.singletons.size

theorem numberSessions_length (slot : SessionSlot) (ds : List Descriptor) :
    (numberSessions slot ds).length = ds.length := by
  induction ds generalizing slot with
  | nil => rfl
  | cons d ds ih =>
    unfold numberSessions
    split_ifs <;> rw [List.length_cons, List.length_cons, ih]

theorem foldl_store_size (bound : List StartBound) (ss : SingletonStore) :
    (bound.foldl (fun ss rb => ss.store rb.descId rb.boundInstance) ss).size = ss.size := by
  induction bound generalizing ss with
  | nil => rfl
  | cons rb bound ih => exact ih _

theorem begun_finishStart (s : StartState) (ctx : Addr) :
    Begun s.registry (finishStart s ctx).registry where
  started := rfl
  pending := rfl
  flag := rfl
  size := by
    have hsize := foldl_store_size s.runtimeBound
      ((s.registry.registerContextBean ctx).assignSessionSlots).singletons
    refine le_of_eq ((numberSessions_length 0 _).trans ?_)
    exact hsize.symm

theorem begun_start {ctx : Addr} (hnot : r.started = false) (hok : r.start ctx = ⟨r', none⟩) :
    Begun r r' := by
  rcases start_cases r ctx with ⟨hs, -⟩ | ⟨descId, -, -, heq⟩ | ⟨-, -, heq⟩
  · rw [hnot] at hs
    cases hs
  · obtain ⟨⟩ := heq.symm.trans hok
    exact ⟨rfl, rfl, rfl, le_rfl⟩
  · obtain ⟨hstate, hfailure⟩ := Attempt.mk.inj (heq.symm.trans hok)
    obtain ⟨-, -, -, hmerge⟩ := merge_of_ok hfailure
    rw [hmerge] at hstate
    have hframe := (Frame.refl r).mergeAndLink (s := { registry := r })
    obtain ⟨hstarted, hpending, hflag, hsize⟩ :=
      begun_finishStart (sortState (mergeAndLink { registry := r }).state) ctx
    rw [hstate] at hstarted hpending hflag hsize
    exact ⟨hstarted, hpending.trans hframe.pending, hflag, hsize⟩

end Registry

/-! ## Calls -/

namespace BeanContext

/-- A call other than `start` leaves a start alone. -/
theorem exec_continues (b : BeanContext) (c : Call) (hc : c ≠ .start) :
    b.core.Continues (b.exec c).state.core := by
  cases c with
  -- discover() queues the descriptors before the start and is refused after it.
  | discover cds =>
    simp only [exec, discover, Registry.submitContribution]
    split_ifs with hstarted
    · exact .refl _
    · exact .of_eq rfl rfl rfl (fun hs => absurd hs hstarted) rfl rfl
  | bindSingleton type name priority object =>
    -- The name is interned first, whatever becomes of the binding.
    have hname : b.core.Continues (b.core.withNames (b.core.nameInterning.intern name).2) :=
      .of_eq rfl rfl rfl (fun _ => rfl) rfl rfl
    exact hname.trans (.bindSingleton _ _ _ _ _)
  | bindSession scope type name priority object =>
    -- Both table entries are made before the checks.
    have hintern : b.core.Continues (b.core.internSession type name) :=
      .of_eq rfl rfl rfl (fun _ => rfl) rfl rfl
    simp only [exec, bindSession]
    split_ifs
    · exact .refl _
    · exact hintern
    · rw [placeSession_core]
      exact hintern.trans (.sessionDescriptor _ _ _ _)
  | defaultNamed scope type name =>
    simp only [exec, defaultNamed]
    split_ifs
    · exact .refl _
    · exact .refl _
    -- A default name changes neither descriptors nor singletons.
    · split
      · exact .refl _
      · split <;> exact .of_eq rfl rfl rfl (fun _ => rfl) rfl rfl
  | clearDefaultNamed scope type =>
    simp only [exec, clearDefaultNamed]
    split_ifs
    · exact .refl _
    · split
      · exact .refl _
      · split
        · exact .of_eq rfl rfl rfl (fun _ => rfl) rfl rfl
        · split_ifs <;> exact .refl _
  | start => exact absurd rfl hc
  | startScope scope =>
    simp only [exec, startScope_core]
    exact .refl _
  -- The calls on scopes leave the root alone.
  | stopScope scope =>
    simp only [exec, Attempt.ok, stopScope_core]
    exact .refl _
  | restartScope scope =>
    simp only [exec, restartScope_core]
    exact .refl _

end BeanContext

namespace Startup

open Registry (Settled Continues)

variable {s s' : State} {r r' : Registry} {fs : List Frame}

/-! ## The claim and its guard -/

/-- A call returns normally, creates and destroys nothing, dispatches nothing, and leaves all that a
    start under way still has to do; it may release the contributions. -/
structure NoOp (s s' : State) : Prop where
  returns : s'.stack = s.stack
  effects : s'.effects = s.effects
  listeners : s'.listeners = s.listeners
  deferredListeners : s'.deferredListeners = s.deferredListeners
  materializing : s'.materializing = s.materializing
  context : s'.context.withCore s'.core.completeStart = s.context.withCore s.core.completeStart

/-- A start of a started context is a no-op; a start that throws leaves the contributions for
    another one. -/
def Unaffected (s : State) (a : Action) (s' : State) : Prop :=
  match a with
  | .start => s.core.started = true → NoOp s s'
  | .throws => s.FailsStart → s'.core.pending = s.submitted
  | _ => True

/-- A start may be called during another one if that has no work left, and must not throw after
    that, unless there were no contributions. -/
def Guard (s : State) (a : Action) : Prop :=
  match a with
  | .start => s.core.started = true → s.Starting → s.core.Settled
  | .throws => s.FailsStart → s.again = true → s.submitted = []
  | _ => True

instance : DecidableRel Guard := fun _ a =>
  match a with
  | .start => inferInstanceAs (Decidable (_ → _ → _))
  | .throws => inferInstanceAs (Decidable (_ → _ → _))
  | .on _ | .call _ | .enter | .materialize _ | .constructed _ | .returns => .isTrue trivial

/-! ## The invariant -/

/-- What the functions under way still have to do is all that a start has not done: a stack without
    a start has nothing left, and the eager singletons that are not there are those that the start
    goes on with, or the one that is under construction for it. -/
inductive Shape (r : Registry) : List Frame → Prop
  | returned : r.Settled → Shape r []
  | beanContext (event : Event) : Shape r [.beanContext event]
  | bound (sb : StartBound) (event : Event) (rest : List StartBound) :
      Shape r [.bound sb event rest]
  | constructing (d : DescriptorId) (rest : List DescriptorId) : r.startLifecyclePending = [] →
      (∀ e ∈ r.eagerSingletons, (r.singletons.find e).isSome = true ∨ e = d ∨ e ∈ rest) →
      Shape r [.constructing d, .eager rest]
  | announcing (mem : Addr) (stage : Stage) (rest : List DescriptorId) :
      r.startLifecyclePending = [] →
      (∀ e ∈ r.eagerSingletons, (r.singletons.find e).isSome = true ∨ e ∈ rest) →
      Shape r [.announcing mem stage, .eager rest]
  | call {f : Frame} {fs : List Frame} : f.isStart = false → Shape r fs → Shape r (f :: fs)

theorem Shape.settled (h : Shape r fs) (hfs : ∀ f ∈ fs, f.isStart = false) : r.Settled := by
  induction h with
  | returned h => exact h
  | beanContext event => cases hfs _ List.mem_cons_self
  | bound sb event rest => cases hfs _ List.mem_cons_self
  | constructing d rest _ _ => cases hfs _ (List.mem_cons_of_mem _ List.mem_cons_self)
  | announcing mem stage rest _ _ => cases hfs _ (List.mem_cons_of_mem _ List.mem_cons_self)
  | call _ _ ih => exact ih fun f hf => hfs f (List.mem_cons_of_mem _ hf)

theorem Shape.mono (h : Shape r fs) (hslp : r'.startLifecyclePending = r.startLifecyclePending)
    (heager : ∀ d, d ∈ r'.eagerSingletons → d ∈ r.eagerSingletons)
    (hfind : ∀ d, (r.singletons.find d).isSome = true → (r'.singletons.find d).isSome = true) :
    Shape r' fs := by
  induction h with
  | returned h =>
    exact .returned ⟨hslp.trans h.bound, fun d hd => hfind d (h.eager d (heager d hd))⟩
  | beanContext event => exact .beanContext event
  | bound sb event rest => exact .bound sb event rest
  | constructing d rest hbound hrest =>
    exact .constructing d rest (hslp.trans hbound) fun e he =>
      (hrest e (heager e he)).imp_left (hfind e)
  | announcing mem stage rest hbound hrest =>
    exact .announcing mem stage rest (hslp.trans hbound) fun e he =>
      (hrest e (heager e he)).imp_left (hfind e)
  | call hf _ ih => exact .call hf ih

/-- Below a frame of another call there is no start that waits for it to return. -/
theorem Shape.setStack_eq (h : Shape r fs) (s : State) :
    passOn s fs = s.setStack fs ∧ goOn s fs = s.setStack fs := by
  cases h with
  | call hf _ =>
    rename_i f fs _
    cases f with
    | eager rest => cases hf
    | _ => exact ⟨rfl, rfl⟩
  | _ => exact ⟨rfl, rfl⟩

/-- What holds in every run that meets the guard. -/
structure Inv (s : State) : Prop where
  stopped : s.core.started = false → s.stack = []
  announced : s.core.started = true → s.core.beanContextStartLifecyclePending = false
  flushed : s.core.started = true → s.deferredListeners = []
  size : s.core.started = true → ∀ d ∈ s.core.eagerSingletons, d < s.core.singletons.size
  claimed : s.materializing = s.stack.filterMap Frame.claimed?
  shape : s.core.started = true → Shape s.core s.stack
  kept : s.Starting → s.core.pending = if s.again then [] else s.submitted

theorem inv_init (S : StdSort) (self : Addr) : Inv { context := .fresh S self } where
  stopped _ := rfl
  announced := nofun
  flushed := nofun
  size := nofun
  claimed := rfl
  shape := nofun
  kept := nofun

/-- A start that throws leaves no start under way. -/
theorem Inv.of_rollback (s : State) : Inv (s.rollback.setStack []) := by
  have hstopped : (s.rollback.setStack []).core.started = false := by
    change (s.core.rollbackFailedStart).started = false
    unfold Registry.rollbackFailedStart Registry.stopOwnedBeans
    split
    · rfl
    · rename_i hs
      exact Bool.eq_false_of_not_eq_true hs
  refine ⟨fun _ => rfl, fun hs => ?_, fun hs => ?_, fun hs => ?_, rfl, fun hs => ?_, nofun⟩ <;>
  · rw [hstopped] at hs
    cases hs

/-! ## The steps of a start -/

/-- A start whose eager singletons are there returns. -/
theorem enterEager_of_stored (s : State) (fs : List Frame) {ds : List DescriptorId}
    (h : ∀ d ∈ ds, (s.core.singletons.find d).isSome = true) :
    enterEager s fs ds = (s.setCore s.core.completeStart).setStack fs := by
  induction ds with
  | nil => rfl
  | cons d ds ih =>
    rw [enterEager, if_pos (h d List.mem_cons_self)]
    exact ih fun e he => h e (List.mem_cons_of_mem d he)

/-- A start that lacks an eager singleton constructs it, or throws. -/
theorem enterEager_of_missing (s : State) (fs : List Frame) {ds : List DescriptorId}
    (h : ∃ d ∈ ds, (s.core.singletons.find d).isSome = false) :
    (∃ d rest, (enterEager s fs ds).stack = .constructing d :: .eager rest :: fs) ∨
      ∃ es, (enterEager s fs ds).effects = s.effects ++ (es ++ [.startThrew]) := by
  induction ds with
  | nil =>
    obtain ⟨d, hd, -⟩ := h
    cases hd
  | cons d ds ih =>
    rw [enterEager]
    split_ifs with hfound hclaimed
    · obtain ⟨e, he, hmissing⟩ := h
      rcases List.mem_cons.mp he with rfl | he
      · rw [hmissing] at hfound
        cases hfound
      · exact ih ⟨e, he, hmissing⟩
    · exact .inr ⟨_, rfl⟩
    · exact .inl ⟨d, ds, rfl⟩

/-- The start of a started context, once the listeners are flushed and the context is announced. -/
theorem enterStart_eq (hflag : s.core.beanContextStartLifecyclePending = false)
    (hdeferred : s.deferredListeners = []) :
    enterStart s s.stack = enterBound s s.stack s.core.startLifecyclePending := by
  have hflush : s.flush = s := by
    unfold State.flush
    rw [hdeferred, List.append_nil, ← hdeferred]
  unfold enterStart
  rw [hflag, if_neg Bool.false_ne_true, hflush]

/-- A start of a started context with nothing left releases the contributions. -/
theorem enterStart_of_settled (hflag : s.core.beanContextStartLifecyclePending = false)
    (hdeferred : s.deferredListeners = []) (h : s.core.Settled) :
    enterStart s s.stack = s.setCore s.core.completeStart := by
  rw [enterStart_eq hflag hdeferred, h.bound, enterBound]
  have hcore : { s.core with startLifecyclePending := [] } = s.core := by
    rw [← h.bound]
  rw [hcore]
  exact enterEager_of_stored s s.stack h.eager

/-- A start of a started context is a no-op if and only if nothing is left. -/
theorem noOp_enterStart_iff (hflag : s.core.beanContextStartLifecyclePending = false)
    (hdeferred : s.deferredListeners = []) : NoOp s (enterStart s s.stack) ↔ s.core.Settled := by
  constructor
  · intro h
    rw [enterStart_eq hflag hdeferred] at h
    have hbound : s.core.startLifecyclePending = [] := by
      cases hslp : s.core.startLifecyclePending with
      | nil => rfl
      | cons sb rest =>
        rw [hslp] at h
        exact absurd h.returns (List.cons_ne_self _ _)
    rw [hbound] at h
    refine ⟨hbound, fun d hd => ?_⟩
    by_contra hmissing
    have hany : ∃ d ∈ s.core.eagerSingletons, (s.core.singletons.find d).isSome = false :=
      ⟨d, hd, Bool.eq_false_of_not_eq_true hmissing⟩
    rcases enterEager_of_missing (s.setCore { s.core with startLifecyclePending := [] }) s.stack
      hany with ⟨d', rest, hstack⟩ | ⟨es, heffects⟩
    · have hlength := congrArg List.length (hstack.symm.trans h.returns)
      simp only [List.length_cons] at hlength
      omega
    · have hlength := congrArg List.length (heffects.symm.trans h.effects)
      simp only [List.length_append, List.length_cons] at hlength
      exact absurd hlength (by change s.effects.length + _ ≠ _; omega)
  · intro h
    rw [enterStart_of_settled hflag hdeferred h]
    exact ⟨rfl, rfl, rfl, rfl, rfl, rfl⟩

/-- The eager singletons of a start: what has been constructed is there, and the rest follows. -/
theorem Inv.enterEager {ds : List DescriptorId} (hs : s.core.started = true)
    (hannounced : s.core.beanContextStartLifecyclePending = false)
    (hflushed : s.deferredListeners = [])
    (hsize : ∀ d ∈ s.core.eagerSingletons, d < s.core.singletons.size)
    (hclaimed : s.materializing = []) (hslp : s.core.startLifecyclePending = [])
    (hkept : s.core.pending = if s.again then [] else s.submitted)
    (hds : ∀ e ∈ s.core.eagerSingletons, (s.core.singletons.find e).isSome = true ∨ e ∈ ds) :
    Inv (enterEager s [] ds) := by
  induction ds with
  | nil =>
    refine ⟨fun _ => rfl, fun _ => hannounced, fun _ => hflushed, fun _ => hsize, hclaimed,
      fun _ => .returned ⟨hslp, fun e he => ?_⟩, nofun⟩
    exact (hds e he).resolve_right List.not_mem_nil
  | cons d ds ih =>
    rw [Startup.enterEager]
    split_ifs with hfound hcycle
    · refine ih fun e he => (hds e he).elim .inl fun he' => ?_
      rcases List.mem_cons.mp he' with rfl | he'
      · exact .inl hfound
      · exact .inr he'
    · rw [hclaimed] at hcycle
      cases hcycle
    · refine ⟨fun hnot => ?_, fun _ => hannounced, fun _ => hflushed, fun _ => hsize,
        congrArg (d :: ·) hclaimed, fun _ => .constructing d ds hslp fun e he => ?_, fun _ => hkept⟩
      · rw [show s.core.started = false from hnot] at hs
        cases hs
      · exact (hds e he).imp_right List.mem_cons.mp

/-- The bound singletons of a start, and what comes after them. -/
theorem Inv.enterBound (sbs : List StartBound) (hs : s.core.started = true)
    (hannounced : s.core.beanContextStartLifecyclePending = false)
    (hflushed : s.deferredListeners = [])
    (hsize : ∀ d ∈ s.core.eagerSingletons, d < s.core.singletons.size)
    (hclaimed : s.materializing = [])
    (hkept : s.core.pending = if s.again then [] else s.submitted) :
    Inv (enterBound s [] sbs) := by
  cases sbs with
  | nil =>
    exact Inv.enterEager (s := s.setCore { s.core with startLifecyclePending := [] }) hs hannounced
      hflushed hsize hclaimed rfl hkept fun e he => .inr he
  | cons sb rest =>
    refine ⟨fun hnot => ?_, fun _ => hannounced, fun _ => hflushed, fun _ => hsize, hclaimed,
      fun _ => .bound sb _ rest, fun _ => hkept⟩
    rw [show s.core.started = false from hnot] at hs
    cases hs

/-- A start of a registry that is not started. -/
theorem Inv.firstStart (h : Inv s) (hnot : s.core.started = false) : Inv (firstStart s) := by
  unfold Startup.firstStart
  have hstack := h.stopped hnot
  split
  · rename_i core hstart
    obtain ⟨hstarted, hpending, hflag, hsize⟩ := Registry.begun_start hnot hstart
    rw [hstack, enterStart]
    have hclaimed := h.claimed
    rw [hstack] at hclaimed
    split
    swap
    · rename_i hnotFlag
      exact absurd hflag hnotFlag
    refine ⟨fun hn => ?_, fun _ => rfl, fun _ => rfl, fun _ d hd => ?_, hclaimed,
      fun _ => .beanContext _, fun _ => rfl⟩
    · rw [show core.started = false from hn] at hstarted
      cases hstarted
    · have hd : d ∈ List.range core.descriptors.length :=
        (List.mem_filter.mp ((Registry.eagerSingletons_perm _).mem_iff.mp hd)).1
      exact (List.mem_range.mp hd).trans_le hsize
  · rename_i core e hstart
    have hrollback := Inv.of_rollback (s.setCore core)
    rwa [← hstack] at hrollback

/-- If no start is under way, then nothing is left of the last one. -/
theorem Inv.settled (h : Inv s) (hs : s.core.started = true) (hG : s.Starting → s.core.Settled) :
    s.core.Settled := by
  by_cases hstarting : s.Starting
  · exact hG hstarting
  · refine (h.shape hs).settled fun f hf => ?_
    by_contra hf'
    exact hstarting ⟨f, hf, Bool.eq_true_of_not_eq_false hf'⟩

/-- A start of a started context that meets the guard releases the contributions, and that is
    all. -/
theorem Inv.startAgain (h : Inv s) (hs : s.core.started = true)
    (hG : s.Starting → s.core.Settled) : Inv (enterStart { s with again := true } s.stack) := by
  rw [enterStart_of_settled (s := { s with again := true }) (h.announced hs) (h.flushed hs)
    (h.settled hs hG)]
  exact {
    stopped := h.stopped
    announced := h.announced
    flushed := h.flushed
    size := h.size
    claimed := h.claimed
    shape := fun hs => (h.shape hs).mono rfl (fun _ hd => hd) fun _ hd => hd
    kept := fun _ => rfl }

/-! ## The other steps -/

theorem Inv.started (h : Inv s) (hstack : s.stack ≠ []) : s.core.started = true :=
  Bool.eq_true_of_not_eq_false fun hnot => hstack (h.stopped hnot)

/-- The context changes, but not for a start. -/
theorem Inv.continues (h : Inv s) {b : BeanContext} (hb : s.core.Continues b.core) :
    Inv { s with context := b } where
  stopped hnot := h.stopped (hb.started.symm.trans hnot)
  announced hs := hb.beanContextStartLifecyclePending.trans
    (h.announced (hb.started.symm.trans hs))
  flushed hs := h.flushed (hb.started.symm.trans hs)
  size hs d hd := (h.size (hb.started.symm.trans hs) d (hb.eager hd)).trans_le hb.size
  claimed := h.claimed
  shape hs := (h.shape (hb.started.symm.trans hs)).mono hb.startLifecyclePending
    (fun _ => hb.eager) fun _ => hb.find
  kept hstarting := by
    obtain ⟨f, hf, -⟩ := id hstarting
    exact (hb.pending (h.started (List.ne_nil_of_mem hf))).trans (h.kept hstarting)

/-- The functions under way change, but not the starts among them. -/
theorem Inv.setStack (h : Inv s) (hs : s.core.started = true) {m : List DescriptorId}
    (hm : m = fs.filterMap Frame.claimed?) (hshape : Shape s.core fs)
    (hstarts : (∃ f ∈ fs, f.isStart = true) → s.Starting) :
    Inv { s.setStack fs with materializing := m } where
  stopped hnot := by
    rw [show s.core.started = false from hnot] at hs
    cases hs
  announced := h.announced
  flushed := h.flushed
  size := h.size
  claimed := hm
  shape _ := hshape
  kept hstarting := h.kept (hstarts hstarting)

theorem Inv.perform (h : Inv s) (es : List Effect) : Inv (s.perform es) := { h with }

/-- A function is called that is not a start. -/
theorem Inv.push (h : Inv s) (hs : s.core.started = true) {f : Frame} (hf : f.isStart = false)
    {m : List DescriptorId} (hm : m = (f :: s.stack).filterMap Frame.claimed?) :
    Inv { s.setStack (f :: s.stack) with materializing := m } := by
  refine h.setStack hs hm (.call hf (h.shape hs)) ?_
  rintro ⟨f', hf', hstart⟩
  rcases List.mem_cons.mp hf' with rfl | hf'
  · rw [hf] at hstart
    cases hstart
  · exact ⟨f', hf', hstart⟩

/-- The function on top of the stack is left, or takes a step. -/
theorem Inv.below (h : Inv s) {f : Frame} (hstack : s.stack = f :: fs) {fs' : List Frame}
    (hfs : fs' = fs ∨ ∃ f', f'.isStart = f.isStart ∧ fs' = f' :: fs) {m : List DescriptorId}
    (hm : m = fs'.filterMap Frame.claimed?) (hshape : Shape s.core fs') :
    Inv { s.setStack fs' with materializing := m } := by
  refine h.setStack (h.started (by rw [hstack]; nofun)) hm hshape ?_
  rintro ⟨g, hg, hstart⟩
  unfold State.Starting
  rw [hstack]
  rcases hfs with rfl | ⟨f', hf', rfl⟩
  · exact ⟨g, List.mem_cons_of_mem f hg, hstart⟩
  · rcases List.mem_cons.mp hg with rfl | hg
    · exact ⟨f, List.mem_cons_self, hf'.symm.trans hstart⟩
    · exact ⟨g, List.mem_cons_of_mem f hg, hstart⟩

/-- The constructor of a singleton returns. -/
theorem Inv.constructed (h : Inv s) {d : DescriptorId} (hstack : s.stack = .constructing d :: fs)
    (mem : Addr) : Inv (constructedStep s d mem fs) := by
  have hs := h.started (by rw [hstack]; nofun)
  have hclaimed : s.materializing.erase d = fs.filterMap Frame.claimed? := by
    rw [h.claimed, hstack]
    exact List.erase_cons_head ..
  have hstore := Continues.store s.core d mem
  have hstored := ((h.continues (b := s.context.withCore
    { s.core with singletons := s.core.singletons.store d mem }) hstore)).perform
      [.constructed d mem, .dispatched mem .onInitialized]
  refine hstored.below hstack (.inr ⟨.announcing mem .onInitialized, rfl, rfl⟩) hclaimed ?_
  have hshape := h.shape hs
  rw [hstack] at hshape
  cases hshape with
  | constructing _ rest hslp hrest =>
    refine .announcing mem _ rest hslp fun e he => ?_
    rcases hrest e (hstore.eager he) with hfound | rfl | he'
    · exact .inl (hstore.find hfound)
    · -- The eager singleton itself, whose place is in the store.
      have hfind : (s.core.singletons.store e mem).find e = some mem :=
        (if_pos (h.size hs e (hstore.eager he))).trans (Function.update_self ..)
      exact .inl (congrArg Option.isSome hfind)
    · exact .inr he'
  | call _ hfs =>
    exact .call rfl (hfs.mono rfl (fun _ => hstore.eager) fun _ => hstore.find)

/-- Above a frame of a start there is nothing but its own callback. -/
theorem Shape.eq_nil {f : Frame} (h : Shape r (f :: fs)) (hf : f.isStart = true) : fs = [] := by
  cases h with
  | beanContext | bound => rfl
  | constructing | announcing => cases hf
  | call hf' _ =>
    rw [hf] at hf'
    cases hf'

/-- The frame of a new singleton goes on to another callback. -/
theorem Shape.announcing' {mem : Addr} {stage : Stage} (h : Shape r (.announcing mem stage :: fs))
    (stage' : Stage) : Shape r (.announcing mem stage' :: fs) := by
  cases h with
  | announcing _ _ rest hslp hrest => exact .announcing mem stage' rest hslp hrest
  | call _ hfs => exact .call rfl hfs

/-- The creation of a singleton is complete, and the function below goes on. -/
theorem Inv.goOn (h : Inv s) {mem : Addr} {stage : Stage}
    (hstack : s.stack = .announcing mem stage :: fs) : Inv (goOn s fs) := by
  have hs := h.started (by rw [hstack]; nofun)
  have hshape := h.shape hs
  have hclaimed := h.claimed
  rw [hstack] at hshape hclaimed
  cases hshape with
  | announcing _ _ rest hslp hrest =>
    have hstarting : s.Starting := ⟨.eager rest, by rw [hstack]; simp, rfl⟩
    exact .enterEager hs (h.announced hs) (h.flushed hs) (h.size hs) hclaimed hslp
      (h.kept hstarting) hrest
  | call _ hfs =>
    rw [(hfs.setStack_eq s).2]
    exact h.below hstack (.inl rfl) hclaimed hfs

/-- A callback returns. -/
theorem Inv.returned (h : Inv s) (hstep : returnStep s = some s') : Inv s' := by
  have hclaimed := h.claimed
  unfold returnStep at hstep
  split at hstep <;> obtain ⟨⟩ := hstep <;> rename_i hstack <;>
    have hs := h.started (by rw [hstack]; nofun) <;> have hshape := h.shape hs <;>
    rw [hstack] at hshape hclaimed
  · -- The context bean is announced.
    obtain rfl := hshape.eq_nil rfl
    exact (h.perform _).below hstack (.inr ⟨.beanContext .onCreated, rfl, rfl⟩) hclaimed
      (.beanContext _)
  · obtain rfl := hshape.eq_nil rfl
    exact .enterBound _ hs (h.announced hs) (h.flushed hs) (h.size hs) hclaimed
      (h.kept ⟨_, by rw [hstack]; exact List.mem_cons_self, rfl⟩)
  · -- A bound singleton is announced.
    obtain rfl := hshape.eq_nil rfl
    exact (h.perform _).below hstack (.inr ⟨.bound _ .onCreated _, rfl, rfl⟩) hclaimed
      (.bound _ _ _)
  · obtain rfl := hshape.eq_nil rfl
    exact .enterBound _ hs (h.announced hs) (h.flushed hs) (h.size hs) hclaimed
      (h.kept ⟨_, by rw [hstack]; exact List.mem_cons_self, rfl⟩)
  · -- A new singleton is announced.
    exact h.below hstack (.inr ⟨.announcing _ .postConstruct, rfl, rfl⟩) hclaimed
      (hshape.announcing' _)
  · exact (h.perform _).below hstack (.inr ⟨.announcing _ .onCreated, rfl, rfl⟩) hclaimed
      (hshape.announcing' _)
  · exact h.goOn hstack
  · cases hshape with
    | call _ hfs => exact h.below hstack (.inl rfl) hclaimed hfs

/-- User code throws: a start that fails for it leaves no start under way. -/
theorem Inv.passOn (h : Inv s) {f : Frame} (hstack : s.stack = f :: fs) (hf : f.isStart = false)
    {m : List DescriptorId} (hm : m = fs.filterMap Frame.claimed?) :
    Inv (passOn { s with materializing := m } fs) := by
  have hshape := h.shape (h.started (by rw [hstack]; nofun))
  rw [hstack] at hshape
  cases hshape with
  | beanContext | bound => cases hf
  | constructing | announcing => exact .of_rollback _
  | call _ hfs =>
    rw [(hfs.setStack_eq _).1]
    exact h.below hstack (.inl rfl) hm hfs

theorem Inv.thrown (h : Inv s) (hstep : throwStep s = some s') : Inv s' := by
  have hclaimed := h.claimed
  unfold throwStep at hstep
  split at hstep <;> obtain ⟨⟩ := hstep <;> rename_i hstack <;>
    have hshape := h.shape (h.started (by rw [hstack]; nofun)) <;>
    rw [hstack] at hshape hclaimed
  · obtain rfl := hshape.eq_nil rfl
    exact .of_rollback s
  · obtain rfl := hshape.eq_nil rfl
    exact .of_rollback s
  · refine h.passOn hstack rfl ?_
    rw [hclaimed]
    exact List.erase_cons_head ..
  · exact h.passOn hstack rfl hclaimed
  · exact h.passOn hstack rfl hclaimed

/-- A step that meets the guard keeps the invariant. -/
theorem Inv.step (h : Inv s) {a : Action} (hG : Guard s a) (hstep : step s a = some s') :
    Inv s' := by
  cases a with
  | start =>
    simp only [Startup.step] at hstep
    split_ifs at hstep with hs hstack
    -- start() again: the guard allows it only where a start under way has no work left.
    · obtain ⟨⟩ := hstep
      exact h.startAgain hs (hG hs)
    · obtain ⟨⟩ := hstep
      -- The first start: the stack is empty.
      exact h.firstStart (Bool.eq_false_of_not_eq_true hs)
  | on token =>
    obtain ⟨⟩ := hstep
    split_ifs with hs
    -- on() after the start goes to the store, before it to the deferred list.
    · exact { h with }
    · exact { h with flushed := fun hs' => absurd hs' hs }
  | call c =>
    have hcall : c ≠ .start ∧ s' = { s with context := (s.context.exec c).state } := by
      cases c <;> obtain ⟨⟩ := hstep <;> exact ⟨nofun, rfl⟩
    obtain ⟨hc, rfl⟩ := hcall
    exact h.continues (s.context.exec_continues c hc)
  | enter =>
    obtain ⟨hs, ⟨⟩⟩ := Option.ite_none_right_eq_some.mp hstep
    exact h.push hs rfl h.claimed
  -- A claim pushes its frame, so claims and frames stay in step.
  | materialize d =>
    obtain ⟨hd, ⟨⟩⟩ := Option.ite_none_right_eq_some.mp hstep
    -- Only a started context constructs.
    have hs : s.core.started = true := by
      simp only [constructible, Bool.and_eq_true] at hd
      exact hd.1.1.1
    exact h.push hs rfl (congrArg (d :: ·) h.claimed)
  | constructed mem =>
    simp only [Startup.step] at hstep
    split at hstep
    · rename_i hstack
      obtain ⟨⟩ := hstep
      exact h.constructed hstack mem
    · cases hstep
  | returns => exact h.returned hstep
  | throws => exact h.thrown hstep

/-! ## Runs -/

theorem rollback_pending (s : State) : s.rollback.core.pending = s.core.pending := by
  change (s.core.rollbackFailedStart).pending = s.core.pending
  unfold Registry.rollbackFailedStart Registry.stopOwnedBeans
  split <;> rfl

/-- User code that throws leaves the contributions alone. -/
theorem throwStep_pending (hstep : throwStep s = some s') : s'.core.pending = s.core.pending := by
  have hpassOn : ∀ (t : State) fs, (passOn t fs).core.pending = t.core.pending := fun t fs => by
    unfold passOn
    split
    · exact rollback_pending t
    · rfl
  unfold throwStep at hstep
  split at hstep <;> obtain ⟨⟩ := hstep
  · exact rollback_pending s
  · exact rollback_pending s
  · exact hpassOn _ _
  · exact hpassOn _ _
  · exact hpassOn _ _

theorem State.FailsStart.starting (h : s.FailsStart) : s.Starting := by
  unfold State.FailsStart at h
  split at h
  · rename_i hstack
    exact ⟨_, by rw [hstack]; exact List.mem_cons_self, rfl⟩
  · rename_i hstack
    exact ⟨_, by rw [hstack]; exact List.mem_cons_self, rfl⟩
  · rename_i hstack
    exact ⟨_, by rw [hstack]; exact List.mem_cons_of_mem _ List.mem_cons_self, rfl⟩
  · exact h.elim

/-- A step does what it should exactly if it meets the guard. -/
theorem unaffected_iff (h : Inv s) {a : Action} (hstep : step s a = some s') :
    Unaffected s a s' ↔ Guard s a := by
  cases a with
  | start =>
    refine forall_congr' fun hs => ?_
    simp only [step, if_pos hs] at hstep
    obtain ⟨⟩ := hstep
    have hnoOp : NoOp s (enterStart { s with again := true } s.stack) ↔ s.core.Settled := by
      have hiff := noOp_enterStart_iff (s := { s with again := true }) (h.announced hs)
        (h.flushed hs)
      exact ⟨fun hno => hiff.mp { hno with }, fun hsettled => { hiff.mpr hsettled with }⟩
    exact hnoOp.trans ⟨fun hsettled _ => hsettled, fun hG => h.settled hs hG⟩
  | throws =>
    refine forall_congr' fun hfails => ?_
    rw [throwStep_pending hstep, h.kept hfails.starting]
    split_ifs with hagain
    · exact ⟨fun hsubmitted _ => hsubmitted.symm, fun hG => (hG hagain).symm⟩
    · exact ⟨fun _ hagain' => absurd hagain' hagain, fun _ => rfl⟩
  | _ => exact Iff.rfl

/-- The guard is a condition on steps that are enabled. -/
theorem guard_of_not_enabled (h : Inv s) {a : Action} (hstep : step s a = none) : Guard s a := by
  cases a with
  | start =>
    intro hs
    simp only [step, if_pos hs] at hstep
    cases hstep
  | throws =>
    intro hfails
    obtain ⟨f, hf, -⟩ := id hfails.starting
    have hshape := h.shape (h.started (List.ne_nil_of_mem hf))
    cases hstack : s.stack with
    | nil =>
      rw [hstack] at hf
      cases hf
    | cons f fs =>
      have hstep : throwStep s = none := hstep
      rw [throwStep, hstack] at hstep
      rw [hstack] at hshape
      cases f with
      | eager rest =>
        cases hshape with
        | call hf _ => cases hf
      | _ => cases hstep
  | _ => trivial

/-- All starts of started contexts are no-ops, and all starts that throw keep the contributions,
    in exactly the runs whose steps meet the guard. -/
theorem start_again_iff (S : StdSort) (self : Addr) (as : List Action) :
    (∀ k s a s', machine.run { context := .fresh S self } (as.take k) = some s →
      as[k]? = some a → machine.step s a = some s' → Unaffected s a s') ↔
        machine.Along Guard { context := .fresh S self } as :=
  Machine.along_iff_forall_step (M := machine) (G := Guard) (I := Inv) (Q := Unaffected)
    (fun _ _ _ h hG hs => h.step hG hs) (fun _ _ _ h hs => unaffected_iff h hs)
    (fun _ _ h hs => guard_of_not_enabled h hs) (inv_init S self) as

/-! ## Examples -/

/-- Two eager singletons, of which the first one is constructed first. -/
def discoverServices : BeanContext.Call :=
  .discover [
    { identity := 1
      exposedType := ⟨"app::Store", 1⟩
      concreteType := ⟨"app::Store", 1⟩
      priority := 1
      lifetime := .singleton
      lazy := false },
    { identity := 2
      exposedType := ⟨"app::Service", 2⟩
      concreteType := ⟨"app::Service", 2⟩
      lifetime := .singleton
      lazy := false }]

/-- The start of these, up to the constructor of the second one. -/
def toSecondConstructor : List Action :=
  [.call discoverServices, .start, .returns, .returns, .constructed 7, .returns, .returns, .returns]

def secondConstructor : State := (machine.run initial toSecondConstructor).getD initial

/-- The constructor of an eager singleton calls `start`: this throws, and destroys the singleton
    that the first start has constructed, and the bean of the context. -/
theorem start_in_constructor :
    machine.run initial toSecondConstructor = some secondConstructor ∧
      secondConstructor.core.started = true ∧
      ∃ s', step secondConstructor .start = some s' ∧ s'.core.started = false ∧
        s'.effects = secondConstructor.effects ++ [.destroyed 0 7, .destroyed 2 0, .startThrew] ∧
        ¬Unaffected secondConstructor .start s' := by
  have hstep : ∃ s', step secondConstructor .start = some s' ∧ s'.core.started = false ∧
      s'.effects = secondConstructor.effects ++ [.destroyed 0 7, .destroyed 2 0, .startThrew] :=
    ⟨_, rfl, by decide, by decide⟩
  obtain ⟨s', hs', hstopped, heffects⟩ := hstep
  refine ⟨rfl, by decide, s', hs', hstopped, heffects, fun h => ?_⟩
  have hnoOp := h (by decide)
  rw [hnoOp.effects] at heffects
  exact absurd heffects (by decide)

/-- A listener for a bound singleton calls `start`, and is called again for the same event. -/
theorem start_in_bound_event : ∃ s s',
    machine.run initial [.call (.bindSingleton ⟨"app::Clock", 1⟩ "" 0 7), .start,
      .returns, .returns] =
      some s ∧ step s .start = some s' ∧
        s'.effects = [.dispatched 0 .onInitialized, .dispatched 0 .onCreated,
          .dispatched 7 .onInitialized, .dispatched 7 .onInitialized] :=
  ⟨_, _, rfl, rfl, by decide⟩

end Startup

end Ctorium
