import Ctorium.Lib.Precedes
import Ctorium.Registry.InjectionPoints
import Ctorium.Registry.Producers
import Ctorium.Startup.Again

/-!
# The eager singletons of a start

`materializeEagerSingletons` goes through the eager singletons by descending priority,
and skips those that are there already: because a constructor, a hook or a listener
that ran before has needed them, or because that code has called `start` itself.

* `Sweep.step`: while a start is under way, an eager singleton is there exactly if it has
  been constructed once, whatever user code does, unless a start throws.
* `Sweep.run`: of two eager singletons, the one of higher priority is constructed first,
  unless the other one was under construction while the start served a bean of at least
  that priority.
* `instances_finishStart`: a first start stores bound instances only.
-/

namespace Ctorium

namespace Registry

variable {r r' : Registry}

/-! ## The list of eager singletons -/

/-- What calls keep of the singletons of a started registry. -/
structure Keeps (r r' : Registry) : Prop where
  started : r'.started = r.started
  descriptors : ∃ ds, r'.descriptors = r.descriptors ++ ds ∧ ∀ d ∈ ds, d.origin = .runtimeBinding
  size : r.singletons.size ≤ r'.singletons.size
  instances : ∀ d < r.descriptors.length, r'.singletons.instances d = r.singletons.instances d
  stdSort : r'.stdSort = r.stdSort

theorem Keeps.refl (r : Registry) : Keeps r r :=
  ⟨rfl, ⟨[], (List.append_nil _).symm, nofun⟩, le_rfl, fun _ _ => rfl, rfl⟩

theorem lt_of_mem_eagerSingletons {d : DescriptorId} (h : d ∈ r.eagerSingletons) :
    d < r.descriptors.length :=
  List.mem_range.mp (List.mem_filter.mp (r.eagerSingletons_perm.mem_iff.mp h)).1

theorem eagerSingletons_nodup (r : Registry) : r.eagerSingletons.Nodup :=
  r.eagerSingletons_perm.nodup_iff.mpr (List.nodup_range.filter _)

/-- The list is sorted by descending priority. -/
theorem eagerSingletons_pairwise (r : Registry) :
    r.eagerSingletons.Pairwise fun a b => r.priorityOf b ≤ r.priorityOf a := by
  have hpriority : ∀ p ∈ r.stdSort.sort (fun a b => decide (b.1 < a.1)) r.collectedEager,
      p.1 = r.priorityOf p.2 := by
    intro p hp
    obtain ⟨id, -, rfl⟩ := List.mem_map.mp (r.stdSort.mem_sort.mp hp)
    rfl
  refine List.pairwise_map.mpr ?_
  refine (r.stdSort.sort_desc_pairwise Prod.fst r.collectedEager).imp_of_mem fun hp hq hle => ?_
  rwa [← hpriority _ hp, ← hpriority _ hq]

/-- The table has grown by descriptors of bound instances. -/
def GrownByBound (r r' : Registry) : Prop :=
  ∃ ds, r'.descriptors = r.descriptors ++ ds ∧ ∀ d ∈ ds, d.origin = .runtimeBinding

theorem GrownByBound.priorityOf (h : GrownByBound r r') {d : DescriptorId}
    (hd : d < r.descriptors.length) : r'.priorityOf d = r.priorityOf d := by
  obtain ⟨ds, hds, -⟩ := h
  rw [Registry.priorityOf, hds, List.getElem?_append_left hd, ← Registry.priorityOf]

/-- None of the descriptors that are added is eager. -/
theorem GrownByBound.eagerSingletons (h : GrownByBound r r') (hsort : r'.stdSort = r.stdSort) :
    r'.eagerSingletons = r.eagerSingletons := by
  have hpriority := fun d hd => h.priorityOf (d := d) hd
  obtain ⟨ds, hds, hbound⟩ := h
  -- An old id is as eager as it was.
  have hold : ∀ d < r.descriptors.length, r'.isEager d = r.isEager d := by
    intro d hd
    rw [isEager, hds, List.getElem?_append_left hd, ← isEager]
  -- A new one is a binding, and no binding is eager.
  have hnew : ∀ k, r'.isEager (r.descriptors.length + k) = false := by
    intro k
    rw [isEager, hds, List.getElem?_append_right (Nat.le_add_right _ _), Nat.add_sub_cancel_left]
    cases hd : ds[k]? with
    | none => rfl
    | some d => simp [hbound d (List.mem_of_getElem? hd)]
  have hfilter : (List.range r'.descriptors.length).filter r'.isEager =
      (List.range r.descriptors.length).filter r.isEager := by
    -- So the filter over the longer range only appends nothing.
    have hadded : ((List.range ds.length).map (r.descriptors.length + ·)).filter r'.isEager =
        [] := by
      refine List.filter_eq_nil_iff.mpr fun d hd => ?_
      obtain ⟨k, -, rfl⟩ := List.mem_map.mp hd
      rw [hnew]
      exact Bool.false_ne_true
    rw [hds, List.length_append, List.range_add, List.filter_append, hadded, List.append_nil,
      List.filter_congr fun d hd => hold d (List.mem_range.mp hd)]
  -- The list collected is equal with its priorities, and the sort is the same function.
  have hcollected : r'.collectedEager = r.collectedEager := by
    rw [collectedEager, hfilter]
    refine List.map_congr_left fun d hd => ?_
    rw [hpriority d (List.mem_range.mp (List.mem_filter.mp hd).1)]
  rw [Registry.eagerSingletons, hcollected, hsort, ← Registry.eagerSingletons]

theorem GrownByBound.trans {r'' : Registry} (h : GrownByBound r r') (h' : GrownByBound r' r'') :
    GrownByBound r r'' := by
  obtain ⟨ds, hds, hbound⟩ := h
  obtain ⟨ds', hds', hbound'⟩ := h'
  refine ⟨ds ++ ds', by rw [hds', hds, List.append_assoc], fun d hd => ?_⟩
  exact (List.mem_append.mp hd).elim (hbound d) (hbound' d)

theorem Keeps.trans {r'' : Registry} (h : Keeps r r') (h' : Keeps r' r'') : Keeps r r'' where
  started := h'.started.trans h.started
  descriptors := GrownByBound.trans h.descriptors h'.descriptors
  size := h.size.trans h'.size
  instances d hd := by
    obtain ⟨ds, hds, -⟩ := h.descriptors
    rw [h'.instances d (by rw [hds, List.length_append]; omega), h.instances d hd]
  stdSort := h'.stdSort.trans h.stdSort

theorem bindSingleton_instances (r : Registry) (type : CppType) (nameId : NameId) (priority : ℤ)
    (object : Addr) {d : DescriptorId} (hd : d < r.descriptors.length) :
    (r.bindSingleton type nameId priority object).state.singletons.instances d =
      r.singletons.instances d := by
  simp only [Registry.bindSingleton]
  split_ifs
  · rfl
  · simp only [Registry.bindSingletonStarted]
    split_ifs
    · rfl
    · -- The instance is stored behind all that are there.
      exact Function.update_of_ne hd.ne _ _
  · unfold Registry.bindSingletonPending
    split_ifs <;> rfl

theorem sessionDescriptor_singletons (r : Registry) (typeId : TypeId) (nameId : NameId)
    (priority : ℤ) : (r.sessionDescriptor typeId nameId priority).2.singletons = r.singletons := by
  unfold Registry.sessionDescriptor
  split
  · rfl
  · simp only [Registry.appendSession]
    split_ifs <;> rfl

theorem bindSingleton_stdSort (r : Registry) (type : CppType) (nameId : NameId) (priority : ℤ)
    (object : Addr) :
    (r.bindSingleton type nameId priority object).state.stdSort = r.stdSort := by
  simp only [Registry.bindSingleton]
  split_ifs
  · rfl
  · simp only [Registry.bindSingletonStarted]
    split_ifs <;> rfl
  · unfold Registry.bindSingletonPending
    split_ifs <;> rfl

theorem sessionDescriptor_stdSort (r : Registry) (typeId : TypeId) (nameId : NameId)
    (priority : ℤ) : (r.sessionDescriptor typeId nameId priority).2.stdSort = r.stdSort := by
  unfold Registry.sessionDescriptor
  split
  · rfl
  · simp only [Registry.appendSession]
    split_ifs <;> rfl

end Registry

namespace BeanContext

theorem exec_stdSort (b : BeanContext) (c : Call) (hc : c ≠ .start) :
    (b.exec c).state.core.stdSort = b.core.stdSort := by
  cases c with
  -- Each call but start() keeps the sort: it is a parameter of the context.
  | discover cds =>
    simp only [exec, discover, Registry.submitContribution]
    split_ifs <;> rfl
  | bindSingleton type name priority object => exact Registry.bindSingleton_stdSort _ _ _ _ _
  | bindSession scope type name priority object =>
    simp only [exec, bindSession]
    split_ifs
    · rfl
    · rfl
    · rw [placeSession_core]
      exact Registry.sessionDescriptor_stdSort _ _ _ _
  | defaultNamed scope type name =>
    simp only [exec, defaultNamed]
    split_ifs
    · rfl
    · rfl
    · split
      · rfl
      · split <;> rfl
  | clearDefaultNamed scope type =>
    simp only [exec, clearDefaultNamed]
    split_ifs
    · rfl
    · split
      · rfl
      · split
        · rfl
        · split_ifs <;> rfl
  | start => exact absurd rfl hc
  | startScope scope => simp only [exec, startScope_core]
  | stopScope scope => simp only [exec, Attempt.ok, stopScope_core]
  | restartScope scope => simp only [exec, restartScope_core]

/-- A call other than `start` leaves the instances that are there, and adds only bound ones. -/
theorem exec_keeps (b : BeanContext) (c : Call) (hc : c ≠ .start) :
    b.core.Keeps (b.exec c).state.core := by
  have hcontinues := b.exec_continues c hc
  -- All but the instances is known; these stay as no call stores a constructed one.
  refine ⟨hcontinues.started, hcontinues.descriptors, hcontinues.size, fun d hd => ?_,
    exec_stdSort b c hc⟩
  cases c with
  | discover cds =>
    simp only [exec, discover, Registry.submitContribution]
    split_ifs <;> rfl
  | bindSingleton type name priority object => exact Registry.bindSingleton_instances _ _ _ _ _ hd
  | bindSession scope type name priority object =>
    simp only [exec, bindSession]
    split_ifs
    · rfl
    · rfl
    · rw [placeSession_core]
      exact congrArg (fun ss => ss.instances d) (Registry.sessionDescriptor_singletons _ _ _ _)
  | defaultNamed scope type name =>
    simp only [exec, defaultNamed]
    split_ifs
    · rfl
    · rfl
    · split
      · rfl
      · split <;> rfl
  | clearDefaultNamed scope type =>
    simp only [exec, clearDefaultNamed]
    split_ifs
    · rfl
    · split
      · rfl
      · split
        · rfl
        · split_ifs <;> rfl
  | start => exact absurd rfl hc
  | startScope scope => simp only [exec, startScope_core]
  | stopScope scope => simp only [exec, Attempt.ok, stopScope_core]
  | restartScope scope => simp only [exec, restartScope_core]

end BeanContext

namespace SingletonStore

variable {ss : SingletonStore} {d e : DescriptorId}

theorem find_store_self (hd : d < ss.size) (mem : Addr) : (ss.store d mem).find d = some mem :=
  (if_pos hd).trans (Function.update_self ..)

theorem find_store_of_ne (hne : e ≠ d) (mem : Addr) : (ss.store d mem).find e = ss.find e := by
  have hinstances : (ss.store d mem).instances e = ss.instances e := Function.update_of_ne hne _ _
  rw [find, hinstances, find]
  rfl

end SingletonStore

namespace Startup

open Registry (Keeps)

variable {s s' : State} {fs : List Frame} {L done : List DescriptorId} {prio : DescriptorId → ℤ}
  {pre : List Effect}

/-- The singletons that have been constructed, in the order in which their constructors have
    returned. -/
def built (effects : List Effect) : List DescriptorId :=
  effects.filterMap fun
    | .constructed d _ => some d
    | _ => none

theorem built_append (es es' : List Effect) : built (es ++ es') = built es ++ built es' :=
  List.filterMap_append

/-- The effects since those of `pre`. -/
def since (pre : List Effect) (s : State) : List Effect := s.effects.drop pre.length

/-- A start has thrown since then. -/
def Thrown (pre : List Effect) (s : State) : Prop := .startThrew ∈ since pre s

def State.Found (s : State) (d : DescriptorId) : Prop := (s.core.singletons.find d).isSome = true

/-- The starts on the stack each have taken a singleton off the list of eager ones, after all
    before it were there. -/
inductive Sweeping (L : List DescriptorId) (found : DescriptorId → Prop) : List Frame → Prop
  | nil : Sweeping L found []
  | constructing {done rest : List DescriptorId} {d : DescriptorId} {fs : List Frame} :
      L = done ++ d :: rest → (∀ e ∈ done, found e) → Sweeping L found fs →
      Sweeping L found (.constructing d :: .eager rest :: fs)
  | announcing {done rest : List DescriptorId} {d : DescriptorId} {fs : List Frame} (mem : Addr)
      (stage : Stage) : L = done ++ d :: rest → (∀ e ∈ done, found e) → found d →
      Sweeping L found fs → Sweeping L found (.announcing mem stage :: .eager rest :: fs)
  | call {f : Frame} {fs : List Frame} : (∀ rest, f ≠ .eager rest) →
      (∀ rest, fs.head? ≠ some (.eager rest)) → Sweeping L found fs → Sweeping L found (f :: fs)

theorem Sweeping.mono {found found' : DescriptorId → Prop} (h : Sweeping L found fs)
    (hfound : ∀ d ∈ L, found d → found' d) : Sweeping L found' fs := by
  induction h with
  | nil => exact .nil
  | constructing hL hdone _ ih =>
    exact .constructing hL (fun e he => hfound e (hL ▸ List.mem_append_left _ he) (hdone e he)) ih
  | announcing mem stage hL hdone hd _ ih =>
    refine .announcing mem stage hL (fun e he => hfound e ?_ (hdone e he)) (hfound _ ?_ hd) ih
    · exact hL ▸ List.mem_append_left _ he
    · exact hL ▸ List.mem_append_right _ List.mem_cons_self
  | call hf hfs _ ih => exact .call hf hfs ih

/-- No start is on top of the stack before its list. -/
theorem Sweeping.head_ne {found : DescriptorId → Prop} (h : Sweeping L found fs)
    (rest : List DescriptorId) : fs.head? ≠ some (.eager rest) := by
  cases h with
  | nil | constructing | announcing => exact nofun
  | call hf _ _ => exact fun heq => hf rest (Option.some.inj heq)

/-- The frame of a new singleton goes on to another callback. -/
theorem Sweeping.announcing' {found : DescriptorId → Prop} {mem : Addr} {stage : Stage}
    (h : Sweeping L found (.announcing mem stage :: fs)) (stage' : Stage) :
    Sweeping L found (.announcing mem stage' :: fs) := by
  cases h with
  | announcing _ _ hL hdone hd hfs => exact .announcing mem stage' hL hdone hd hfs
  | call _ hhead hfs => exact .call nofun hhead hfs

/-- What holds while a start is under way, and after it, as long as no start throws: an eager
    singleton is there exactly if it has been constructed, and then once. -/
structure Sweep (L : List DescriptorId) (prio : DescriptorId → ℤ) (pre : List Effect) (s : State) :
    Prop where
  started : s.core.started = true
  eager : s.core.eagerSingletons = L
  priority : ∀ d ∈ L, s.core.priorityOf d = prio d
  size : ∀ d ∈ L, d < s.core.singletons.size
  claimed : s.materializing = s.stack.filterMap Frame.claimed?
  nodup : s.materializing.Nodup
  missing : ∀ d ∈ L, d ∈ s.materializing → s.core.singletons.find d = none
  effects : pre <+: s.effects
  once : ∀ d ∈ L, (built (since pre s)).count d = if (s.core.singletons.find d).isSome then 1 else 0
  sweeping : Sweeping L s.Found s.stack

/-- The first start is still under way, at the bottom of the stack, or all is there. -/
def UnderWay (L : List DescriptorId) (s : State) : Prop :=
  (∃ f, s.stack.getLast? = some f ∧ f.isStart = true) ∨ ∀ d ∈ L, s.Found d

theorem since_append {es : List Effect} (h : pre <+: s.effects)
    (hs' : s'.effects = s.effects ++ es) : since pre s' = since pre s ++ es := by
  rw [since, since, hs', List.drop_append_of_le_length h.length_le]

theorem thrown_rollback (h : pre <+: s.effects) (stack : List Frame) :
    Thrown pre (s.rollback.setStack stack) := by
  have hs' : (s.rollback.setStack stack).effects = s.effects ++
      ((if s.core.started then s.core.sweptSingletons.map fun x => .destroyed x.1 x.2 else []) ++
        [.startThrew]) := rfl
  rw [Thrown, since_append h hs']
  exact List.mem_append_right _ (List.mem_append_right _ (List.mem_singleton_self _))

/-! ## The rules of the invariant -/

/-- The context changes by another call. -/
theorem Sweep.keeps (h : Sweep L prio pre s) {b : BeanContext} (hb : s.core.Keeps b.core) :
    Sweep L prio pre { s with context := b } := by
  have hfind : ∀ d ∈ L, b.core.singletons.find d = s.core.singletons.find d := by
    intro d hd
    have hlt := h.size d hd
    have hlength := Registry.lt_of_mem_eagerSingletons (h.eager ▸ hd)
    rw [SingletonStore.find, SingletonStore.find, if_pos hlt, if_pos (hlt.trans_le hb.size),
      hb.instances d hlength]
  refine ⟨hb.started.trans h.started,
    (Registry.GrownByBound.eagerSingletons hb.descriptors hb.stdSort).trans h.eager, fun d hd => ?_,
    fun d hd => (h.size d hd).trans_le hb.size, h.claimed, h.nodup, fun d hd hm => ?_, h.effects,
    fun d hd => ?_, h.sweeping.mono fun d hd hfound => ?_⟩
  · have hlength := Registry.lt_of_mem_eagerSingletons (h.eager ▸ hd)
    exact (Registry.GrownByBound.priorityOf hb.descriptors hlength).trans (h.priority d hd)
  · exact (hfind d hd).trans (h.missing d hd hm)
  · exact (h.once d hd).trans (by rw [← hfind d hd])
  · exact (congrArg Option.isSome (hfind d hd)).trans hfound

/-- The functions under way change, and with them what they have claimed. -/
theorem Sweep.setStack (h : Sweep L prio pre s) {m : List DescriptorId}
    (hm : m = fs.filterMap Frame.claimed?) (hnodup : m.Nodup)
    (hmissing : ∀ d ∈ L, d ∈ m → s.core.singletons.find d = none)
    (hfs : Sweeping L s.Found fs) : Sweep L prio pre { s.setStack fs with materializing := m } :=
  ⟨h.started, h.eager, h.priority, h.size, hm, hnodup, hmissing, h.effects, h.once, hfs⟩

/-- Effects that are not constructions. -/
theorem Sweep.perform (h : Sweep L prio pre s) (es : List Effect) (hes : built es = []) :
    Sweep L prio pre (s.perform es) := by
  refine ⟨h.started, h.eager, h.priority, h.size, h.claimed, h.nodup, h.missing,
    h.effects.trans (List.prefix_append _ _), fun d hd => ?_, h.sweeping⟩
  rw [since_append h.effects rfl, built_append, hes, List.append_nil]
  exact h.once d hd

/-- A function is called that has claimed nothing. -/
theorem Sweep.push (h : Sweep L prio pre s) {f : Frame} (hf : ∀ rest, f ≠ .eager rest)
    (hclaimed : f.claimed? = none) : Sweep L prio pre (s.setStack (f :: s.stack)) := by
  have hm : s.materializing = (f :: s.stack).filterMap Frame.claimed? := by
    rw [List.filterMap_cons_none hclaimed]
    exact h.claimed
  exact h.setStack hm h.nodup h.missing (.call hf h.sweeping.head_ne h.sweeping)

/-- A start is under way below the functions that it calls. -/
theorem underWay_push {fs : List Frame} (fs' : List Frame) (h : UnderWay L (s.setStack fs))
    {t : State} (ht : t.stack = fs' ++ fs) (hfound : ∀ d, s.Found d → t.Found d) :
    UnderWay L t := by
  rcases h with ⟨f, hf, hstart⟩ | hall
  · refine .inl ⟨f, ?_, hstart⟩
    have hf : fs.getLast? = some f := hf
    rw [ht, List.getLast?_append, hf]
    rfl
  · exact .inr fun d hd => hfound d (hall d hd)

/-! ## The steps of a start -/

/-- The start goes on with its list, above the stack `fs`. -/
theorem Sweep.enterEager (h : Sweep L prio pre (s.setStack fs)) {ds : List DescriptorId}
    (D : List DescriptorId) (hL : L = D ++ ds) (hdone : ∀ e ∈ D, s.Found e)
    (hunder : fs = [] ∨ UnderWay L (s.setStack fs)) : Thrown pre (enterEager s fs ds) ∨
      Sweep L prio pre (enterEager s fs ds) ∧ UnderWay L (enterEager s fs ds) := by
  induction ds generalizing D with
  -- Nothing left to visit: every eager singleton is found.
  | nil =>
    rw [List.append_nil] at hL
    refine .inr ⟨{ h with }, .inr ?_⟩
    rw [hL]
    exact hdone
  | cons d ds ih =>
    -- Three cases: built already, under construction (a cycle), or to be built now.
    rw [Startup.enterEager]
    split_ifs with hfound hclaimed
    · refine ih (D ++ [d]) (by rw [hL, List.append_assoc]; rfl) fun e he => ?_
      -- Built already: it moves to the visited part.
      rcases List.mem_append.mp he with he | he
      · exact hdone e he
      · rw [List.mem_singleton.mp he]
        exact hfound
    -- Under construction: the cycle error rolls the start back.
    · exact .inl (thrown_rollback h.effects fs)
    -- To be built: a claim and its frame are pushed.
    · right
      have hnone : s.core.singletons.find d = none :=
        Option.not_isSome_iff_eq_none.mp hfound
      have hmaterializing : s.materializing = fs.filterMap Frame.claimed? := h.claimed
      have hm : d :: s.materializing =
          (Frame.constructing d :: .eager ds :: fs).filterMap Frame.claimed? := by
        rw [hmaterializing]
        rfl
      -- It is not claimed twice, and no claimed singleton has an instance.
      refine ⟨h.setStack hm ?_ (fun e he hm => ?_) (.constructing hL hdone h.sweeping), ?_⟩
      · exact List.nodup_cons.mpr ⟨hclaimed, h.nodup⟩
      · rcases List.mem_cons.mp hm with rfl | hm
        · exact hnone
        · exact h.missing e he hm
      -- The start is under way through the frame of the sweep, or it was before.
      · rcases hunder with rfl | hunder
        · exact .inl ⟨.eager ds, rfl, rfl⟩
        · exact underWay_push [.constructing d, .eager ds] hunder rfl
            fun _ hfound => hfound

/-- The start announces the bound singletons, and goes on with its list. -/
theorem Sweep.enterBound (h : Sweep L prio pre (s.setStack fs)) (sbs : List StartBound)
    (hunder : fs = [] ∨ UnderWay L (s.setStack fs)) : Thrown pre (enterBound s fs sbs) ∨
      Sweep L prio pre (enterBound s fs sbs) ∧ UnderWay L (enterBound s fs sbs) := by
  cases sbs with
  | nil =>
    have hcleared : Sweep L prio pre
        ((s.setCore { s.core with startLifecyclePending := [] }).setStack fs) := { h with }
    exact hcleared.enterEager [] h.eager.symm nofun hunder
  | cons sb rest =>
    refine .inr ⟨((h.push (f := .bound sb .onInitialized rest) nofun rfl).perform
      [.dispatched sb.boundInstance .onInitialized] rfl), ?_⟩
    rcases hunder with rfl | hunder
    · exact .inl ⟨.bound sb .onInitialized rest, rfl, rfl⟩
    · exact underWay_push [.bound sb .onInitialized rest] hunder rfl fun _ hfound => hfound

/-- A further call of `start` on the started context. -/
theorem Sweep.enterStart (h : Sweep L prio pre s) (hunder : UnderWay L s) :
    Thrown pre (enterStart s s.stack) ∨
      Sweep L prio pre (enterStart s s.stack) ∧ UnderWay L (enterStart s s.stack) := by
  unfold Startup.enterStart
  split
  · have hannounced : Sweep L prio pre
        (s.flush.setCore { s.core with beanContextStartLifecyclePending := false }) :=
      { h with }
    refine .inr ⟨(hannounced.push (f := .beanContext .onInitialized) nofun rfl).perform
      [.dispatched s.context.self .onInitialized] rfl, ?_⟩
    exact underWay_push [.beanContext .onInitialized] hunder rfl fun _ hfound => hfound
  · have hflushed : Sweep L prio pre (s.flush.setStack s.stack) :=
      { h with }
    exact hflushed.enterBound _ (.inr hunder)

/-- The function on top of the stack, which is none of a start, returns or throws to the one
    below. -/
theorem underWay_pop {f : Frame} (h : UnderWay L s) (hstack : s.stack = f :: fs)
    (hf : f.isStart = false) : UnderWay L (s.setStack fs) := by
  rcases h with ⟨g, hg, hstart⟩ | hall
  · rw [hstack] at hg
    cases fs with
    | nil =>
      have hg : f = g := Option.some.inj hg
      rw [← hg, hf] at hstart
      cases hstart
    | cons f' fs => exact .inl ⟨g, hg, hstart⟩
  · exact .inr hall

/-- A frame of a start is at the bottom, or a start is under way below it. -/
theorem underWay_below {f : Frame} (h : UnderWay L s) (hstack : s.stack = f :: fs) :
    fs = [] ∨ UnderWay L (s.setStack fs) := by
  rcases h with ⟨g, hg, hstart⟩ | hall
  · rw [hstack] at hg
    cases fs with
    | nil => exact .inl rfl
    | cons f' fs => exact .inr (.inl ⟨g, hg, hstart⟩)
  · exact .inr (.inr hall)

/-- The frame on top takes a step. -/
theorem underWay_replace {f : Frame} (f' : Frame) (h : UnderWay L s) (hstack : s.stack = f :: fs)
    (hf' : f'.isStart = f.isStart) {t : State} (ht : t.stack = f' :: fs)
    (hfound : ∀ d ∈ L, s.Found d → t.Found d) : UnderWay L t := by
  rcases h with ⟨g, hg, hstart⟩ | hall
  · left
    rw [hstack] at hg
    rw [ht]
    cases fs with
    | nil =>
      obtain rfl := Option.some.inj hg
      exact ⟨f', rfl, hf'.trans hstart⟩
    | cons f'' fs => exact ⟨g, hg, hstart⟩
  · exact .inr fun d hd => hfound d hd (hall d hd)

/-! ## All steps -/

/-- The constructor of a singleton returns. -/
theorem Sweep.constructed (h : Sweep L prio pre s) {d : DescriptorId}
    (hstack : s.stack = .constructing d :: fs) (mem : Addr) :
    Sweep L prio pre (constructedStep s d mem fs) := by
  have hclaimed := h.claimed
  have hsweeping := h.sweeping
  rw [hstack] at hclaimed hsweeping
  -- The claim of `d` is on top, so erasing it leaves the claims below.
  have herase : s.materializing.erase d = fs.filterMap Frame.claimed? := by
    rw [hclaimed]
    exact List.erase_cons_head ..
  -- After the store `d` is found, and what was found before still is.
  have hself : ∀ e ∈ L, e = d →
      (s.core.singletons.store d mem).find e = some mem := by
    rintro e he rfl
    exact SingletonStore.find_store_self (h.size e he) mem
  have hfound : ∀ e ∈ L, s.Found e → ((s.core.singletons.store d mem).find e).isSome = true := by
    intro e he hfound
    by_cases hd : e = d
    · rw [hself e he hd]
      rfl
    · rwa [SingletonStore.find_store_of_ne hd]
  refine ⟨h.started, h.eager, h.priority, h.size, herase, h.nodup.erase d, fun e he hm => ?_,
    h.effects.trans (List.prefix_append _ _), fun e he => ?_, ?_⟩
  -- The other claims are still of missing singletons.
  · obtain ⟨hne, hm⟩ := (h.nodup.mem_erase_iff).mp hm
    exact (SingletonStore.find_store_of_ne hne mem).trans (h.missing e he hm)
  -- `d` was built for the first time, the others as often as before.
  · have hsince : since pre (constructedStep s d mem fs) =
        since pre s ++ [.constructed d mem, .dispatched mem .onInitialized] :=
      since_append h.effects rfl
    have hbuilt : built [.constructed d mem, .dispatched mem .onInitialized] = [d] := rfl
    have hold := h.once e he
    rw [hsince, built_append, hbuilt, List.count_append, hold]
    change _ = if ((s.core.singletons.store d mem).find e).isSome then 1 else 0
    by_cases hd : e = d
    · subst hd
      have hmem : e ∈ s.materializing := hclaimed ▸ List.mem_cons_self
      rw [h.missing e he hmem, hself e he rfl, List.count_singleton_self]
      rfl
    · have hcount : [d].count e = 0 :=
        List.count_eq_zero.mpr fun hmem => hd (List.mem_singleton.mp hmem)
      rw [SingletonStore.find_store_of_ne hd, hcount, Nat.add_zero]
  -- The frame of the constructor becomes the announcement of its instance.
  · have hmono : ∀ {fs : List Frame}, Sweeping L s.Found fs →
        Sweeping L (constructedStep s d mem fs).Found fs := fun hfs => hfs.mono hfound
    cases hsweeping with
    | constructing hL hdone hfs =>
      refine .announcing mem _ hL (fun e he => ?_) ?_ (hmono hfs)
      · exact hfound e (hL ▸ List.mem_append_left _ he) (hdone e he)
      · have hd : d ∈ L := hL ▸ List.mem_append_right _ List.mem_cons_self
        exact congrArg Option.isSome (hself d hd rfl)
    | call _ hhead hfs => exact .call nofun hhead (hmono hfs)

/-- The function on top of the stack is left. -/
theorem Sweep.pop (h : Sweep L prio pre s) {m : List DescriptorId}
    (hm : m = fs.filterMap Frame.claimed?) (hsub : m.Sublist s.materializing)
    (hfs : Sweeping L s.Found fs) : Sweep L prio pre { s.setStack fs with materializing := m } :=
  h.setStack hm (h.nodup.sublist hsub) (fun d hd hmem => h.missing d hd (hsub.subset hmem)) hfs

theorem Sweep.leave (h : Sweep L prio pre s) (hfs : Sweeping L s.Found fs)
    (hclaimed : s.materializing = fs.filterMap Frame.claimed?) : Sweep L prio pre (s.setStack fs) :=
  h.setStack hclaimed h.nodup h.missing hfs

/-- The function on top of the stack goes on. -/
theorem Sweep.replace (h : Sweep L prio pre s) {f : Frame} (f' : Frame) (hstack : s.stack = f :: fs)
    (hf' : f'.claimed? = f.claimed?) (hfs : Sweeping L s.Found (f' :: fs)) :
    Sweep L prio pre (s.setStack (f' :: fs)) := by
  have hm : s.materializing = (f' :: fs).filterMap Frame.claimed? := by
    rw [h.claimed, hstack, List.filterMap_cons, List.filterMap_cons, hf']
  exact h.setStack hm h.nodup h.missing hfs

theorem goOn_of_head (h : ∀ rest, fs.head? ≠ some (.eager rest)) : goOn s fs = s.setStack fs := by
  unfold goOn
  split
  · exact absurd rfl (h _)
  · rfl

theorem passOn_of_head (h : ∀ rest, fs.head? ≠ some (.eager rest)) :
    passOn s fs = s.setStack fs := by
  unfold passOn
  split
  · exact absurd rfl (h _)
  · rfl

/-- A callback returns. -/
theorem Sweep.returned (h : Sweep L prio pre s) (hunder : UnderWay L s)
    (hstep : returnStep s = some s') : Thrown pre s' ∨ Sweep L prio pre s' ∧ UnderWay L s' := by
  have hclaimed := h.claimed
  have hsweeping := h.sweeping
  unfold returnStep at hstep
  split at hstep <;> obtain ⟨⟩ := hstep <;> rename_i hstack <;> rw [hstack] at hclaimed hsweeping
  · -- The context bean is announced.
    cases hsweeping with
    | call _ hhead hfs =>
      refine .inr ⟨(h.perform [.dispatched s.context.self .onCreated] rfl).replace
        (.beanContext .onCreated) hstack rfl (.call nofun hhead hfs), ?_⟩
      exact underWay_replace (.beanContext .onCreated) hunder hstack rfl rfl
        fun _ _ hfound => hfound
  · cases hsweeping with
    | call _ _ hfs =>
      exact (h.leave hfs hclaimed).enterBound _ (underWay_below hunder hstack)
  · -- A bound singleton is announced.
    cases hsweeping with
    | call _ hhead hfs =>
      refine .inr ⟨(h.perform [.dispatched _ .onCreated] rfl).replace
        (.bound _ .onCreated _) hstack rfl (.call nofun hhead hfs), ?_⟩
      exact underWay_replace (.bound _ .onCreated _) hunder hstack rfl rfl
        fun _ _ hfound => hfound
  · cases hsweeping with
    | call _ _ hfs =>
      exact (h.leave hfs hclaimed).enterBound _ (underWay_below hunder hstack)
  · -- A new singleton is announced.
    refine .inr ⟨h.replace (.announcing _ .postConstruct) hstack rfl
      (hsweeping.announcing' _), ?_⟩
    exact underWay_replace (.announcing _ .postConstruct) hunder hstack rfl rfl
      fun _ _ hfound => hfound
  · refine .inr ⟨(h.perform [.dispatched _ .onCreated] rfl).replace
      (.announcing _ .onCreated) hstack rfl (hsweeping.announcing' _), ?_⟩
    exact underWay_replace (.announcing _ .onCreated) hunder hstack rfl rfl
      fun _ _ hfound => hfound
  · cases hsweeping with
    | announcing _ _ hL hdone hd hfs =>
      -- The start below goes on with the rest of its list.
      rename_i done rest d fs
      have hbelow := underWay_pop hunder hstack rfl
      refine (h.leave hfs hclaimed).enterEager (done ++ [d]) ?_ (fun e he => ?_) ?_
      · rw [hL, List.append_assoc]
        rfl
      · rcases List.mem_append.mp he with he | he
        · exact hdone e he
        · rw [List.mem_singleton.mp he]
          exact hd
      · exact underWay_below (s := s.setStack (.eager rest :: fs)) hbelow rfl
    | call _ hhead hfs =>
      rw [goOn_of_head hhead]
      exact .inr ⟨h.leave hfs hclaimed, underWay_pop hunder hstack rfl⟩
  · cases hsweeping with
    | call _ _ hfs =>
      exact .inr ⟨h.leave hfs hclaimed, underWay_pop hunder hstack rfl⟩

/-- User code throws. -/
theorem Sweep.thrown (h : Sweep L prio pre s) (hunder : UnderWay L s)
    (hstep : throwStep s = some s') : Thrown pre s' ∨ Sweep L prio pre s' ∧ UnderWay L s' := by
  have hclaimed := h.claimed
  have hsweeping := h.sweeping
  have hpass : ∀ {f : Frame} {fs : List Frame} {m : List DescriptorId}, s.stack = f :: fs →
      f.isStart = false → m = fs.filterMap Frame.claimed? → m.Sublist s.materializing →
      Sweeping L s.Found (f :: fs) → Thrown pre (passOn { s with materializing := m } fs) ∨
        Sweep L prio pre (passOn { s with materializing := m } fs) ∧
          UnderWay L (passOn { s with materializing := m } fs) := by
    intro f fs m hstack hf hm hsub hfs
    cases hfs with
    | constructing | announcing => exact .inl (thrown_rollback h.effects _)
    | call _ hhead hfs =>
      have hbelow : UnderWay L (s.setStack fs) := underWay_pop hunder hstack hf
      rw [passOn_of_head hhead]
      exact .inr ⟨h.pop hm hsub hfs, hbelow⟩
  unfold throwStep at hstep
  split at hstep <;> obtain ⟨⟩ := hstep <;> rename_i hstack <;> rw [hstack] at hclaimed hsweeping
  · exact .inl (thrown_rollback h.effects _)
  · exact .inl (thrown_rollback h.effects _)
  · refine hpass hstack rfl ?_ (List.erase_sublist ..) hsweeping
    rw [hclaimed]
    exact List.erase_cons_head ..
  · exact hpass hstack rfl hclaimed (.refl _) hsweeping
  · exact hpass hstack rfl hclaimed (.refl _) hsweeping

theorem call_step {c : BeanContext.Call} (hstep : step s (.call c) = some s') :
    c ≠ .start ∧ s' = { s with context := (s.context.exec c).state } := by
  cases c <;> obtain ⟨⟩ := hstep <;> exact ⟨nofun, rfl⟩

/-- Every step keeps the invariant, or a start throws. -/
theorem Sweep.step (h : Sweep L prio pre s) (hunder : UnderWay L s) {a : Action}
    (hstep : step s a = some s') : Thrown pre s' ∨ Sweep L prio pre s' ∧ UnderWay L s' := by
  cases a with
  | start =>
    simp only [Startup.step, if_pos h.started, Option.some.injEq] at hstep
    have hagain : Sweep L prio pre { s with again := true } := { h with }
    exact hstep ▸ hagain.enterStart hunder
  | on token =>
    obtain ⟨⟩ := hstep
    split_ifs with hs
    · exact .inr ⟨{ h with }, hunder⟩
    · exact absurd h.started hs
  | call c =>
    obtain ⟨hc, rfl⟩ := call_step hstep
    have hkeeps := s.context.exec_keeps c hc
    have hnext := h.keeps hkeeps
    refine .inr ⟨hnext, hunder.imp_right fun hall d hd => ?_⟩
    -- What is there stays there.
    exact (s.context.exec_continues c hc).find (hall d hd)
  | enter =>
    obtain ⟨-, ⟨⟩⟩ := Option.ite_none_right_eq_some.mp hstep
    exact .inr ⟨h.push (by rintro _ ⟨⟩) rfl, underWay_push [.other] hunder rfl fun _ hd => hd⟩
  | materialize d =>
    obtain ⟨hd, ⟨⟩⟩ := Option.ite_none_right_eq_some.mp hstep
    simp only [constructible, Bool.and_eq_true, decide_eq_true_eq, Option.isNone_iff_eq_none] at hd
    have hm : d :: s.materializing =
        (Frame.constructing d :: s.stack).filterMap Frame.claimed? := by
      rw [h.claimed]
      rfl
    refine .inr ⟨h.setStack hm (List.nodup_cons.mpr ⟨hd.2, h.nodup⟩) (fun e he hmem => ?_)
      (.call (by rintro _ ⟨⟩) h.sweeping.head_ne h.sweeping),
      underWay_push [.constructing d] hunder rfl fun _ hd => hd⟩
    rcases List.mem_cons.mp hmem with rfl | hmem
    · exact hd.1.2
    · exact h.missing e he hmem
  | constructed mem =>
    simp only [Startup.step] at hstep
    split at hstep
    · rename_i d fs hstack
      obtain ⟨⟩ := hstep
      refine .inr ⟨h.constructed hstack mem, underWay_replace (.announcing mem
        .onInitialized) hunder hstack rfl rfl fun e he hfound => ?_⟩
      exact (Registry.Continues.store s.core d mem).find hfound
    · cases hstep
  | returns => exact h.returned hunder hstep
  | throws => exact h.thrown hunder hstep

/-! ## What a step constructs and claims -/

/-- Some of the functions on the stack have been called with others on top, and none of them has
    constructed anything. -/
def Quiet (s s' : State) : Prop := ∃ es, s'.effects = s.effects ++ es ∧ built es = []

theorem quiet_of_eq (h : s'.effects = s.effects) : Quiet s s' :=
  ⟨[], h.trans (List.append_nil _).symm, rfl⟩

theorem quiet_rollback (s : State) (fs : List Frame) : Quiet s (s.rollback.setStack fs) := by
  refine ⟨_, rfl, List.filterMap_eq_nil_iff.mpr fun e he => ?_⟩
  rcases List.mem_append.mp he with he | he
  · split_ifs at he
    · obtain ⟨x, -, rfl⟩ := List.mem_map.mp he
      rfl
    · cases he
  · rw [List.mem_singleton.mp he]

theorem quiet_enterEager (s : State) (fs : List Frame) (ds : List DescriptorId) :
    Quiet s (enterEager s fs ds) := by
  induction ds with
  | nil => exact quiet_of_eq rfl
  | cons d ds ih =>
    rw [enterEager]
    split_ifs
    · exact ih
    · exact quiet_rollback s fs
    · exact quiet_of_eq rfl

theorem quiet_enterBound (s : State) (fs : List Frame) (sbs : List StartBound) :
    Quiet s (enterBound s fs sbs) := by
  cases sbs with
  | nil => exact quiet_enterEager _ _ _
  | cons sb rest => exact ⟨_, rfl, rfl⟩

theorem quiet_enterStart (s : State) (fs : List Frame) : Quiet s (enterStart s fs) := by
  unfold enterStart
  split
  · exact ⟨_, rfl, rfl⟩
  · exact quiet_enterBound s.flush fs _

theorem quiet_goOn (s : State) (fs : List Frame) : Quiet s (goOn s fs) := by
  unfold goOn
  split
  · exact quiet_enterEager s _ _
  · exact quiet_of_eq rfl

theorem quiet_passOn (s : State) (fs : List Frame) : Quiet s (passOn s fs) := by
  unfold passOn
  split
  · exact quiet_rollback s _
  · exact quiet_of_eq rfl

theorem quiet_firstStart (s : State) : Quiet s (firstStart s) := by
  unfold firstStart
  split
  · exact quiet_enterStart _ _
  · exact quiet_rollback (s.setCore _) s.stack

/-- A step constructs nothing, or its constructor was on top of the stack. -/
theorem step_effects {a : Action} (hstep : step s a = some s') :
    Quiet s s' ∨ ∃ d mem fs, s.stack = .constructing d :: fs ∧
      s'.effects = s.effects ++ [.constructed d mem, .dispatched mem .onInitialized] := by
  cases a with
  | start =>
    -- Construction is the one step that adds to what was built.
    simp only [step] at hstep
    split_ifs at hstep
    · exact .inl (Option.some.inj hstep ▸ quiet_enterStart { s with again := true } s.stack)
    · exact .inl (Option.some.inj hstep ▸ quiet_firstStart s)
  | on token =>
    obtain ⟨⟩ := hstep
    exact .inl (quiet_of_eq (by split_ifs <;> rfl))
  | call c =>
    obtain ⟨-, rfl⟩ := call_step hstep
    exact .inl (quiet_of_eq rfl)
  | enter =>
    obtain ⟨-, ⟨⟩⟩ := Option.ite_none_right_eq_some.mp hstep
    exact .inl (quiet_of_eq rfl)
  | materialize d =>
    obtain ⟨-, ⟨⟩⟩ := Option.ite_none_right_eq_some.mp hstep
    exact .inl (quiet_of_eq rfl)
  | constructed mem =>
    simp only [step] at hstep
    split at hstep
    · rename_i d fs hstack
      obtain ⟨⟩ := hstep
      exact .inr ⟨d, mem, fs, hstack, rfl⟩
    · cases hstep
  | returns =>
    left
    have hstep : returnStep s = some s' := hstep
    unfold returnStep at hstep
    split at hstep <;> obtain ⟨⟩ := hstep
    · exact ⟨_, rfl, rfl⟩
    · exact quiet_enterBound s _ _
    · exact ⟨_, rfl, rfl⟩
    · exact quiet_enterBound s _ _
    · exact quiet_of_eq rfl
    · exact ⟨_, rfl, rfl⟩
    · exact quiet_goOn s _
    · exact quiet_of_eq rfl
  | throws =>
    -- A rollback adds destructions and the error, no construction.
    left
    have hstep : throwStep s = some s' := hstep
    unfold throwStep at hstep
    split at hstep <;> obtain ⟨⟩ := hstep
    · exact quiet_rollback s _
    · exact quiet_rollback s _
    · exact quiet_passOn { s with materializing := s.materializing.erase _ } _
    · exact quiet_passOn s _
    · exact quiet_passOn s _

/-- A constructor is on the stack from before, or for the list of a start that has just been taken
    up. -/
def Claims (fs : List Frame) (s' : State) : Prop := ∀ d, .constructing d ∈ s'.stack →
  .constructing d ∈ fs ∨ ∃ rest fs', s'.stack = .constructing d :: .eager rest :: fs'

theorem claims_of_subset {fs : List Frame} (h : s'.stack ⊆ fs) : Claims fs s' :=
  fun _ hd => .inl (h hd)

theorem Claims.mono {fs fs' : List Frame} (h : Claims fs s') (hfs : fs ⊆ fs') : Claims fs' s' :=
  fun d hd => (h d hd).imp_left fun hd => hfs hd

theorem claims_enterEager (s : State) (fs : List Frame) (ds : List DescriptorId) :
    Claims fs (enterEager s fs ds) := by
  induction ds with
  | nil => exact claims_of_subset (List.Subset.refl fs)
  | cons d ds ih =>
    rw [enterEager]
    split_ifs
    · exact ih
    · exact claims_of_subset (List.Subset.refl fs)
    · intro e he
      rcases List.mem_cons.mp he with heq | he
      · obtain rfl := Frame.constructing.inj heq
        exact .inr ⟨ds, fs, rfl⟩
      · exact .inl ((List.mem_cons.mp he).resolve_left (by rintro ⟨⟩))

theorem claims_push {f : Frame} {fs : List Frame} (hf : f.claimed? = none)
    (hs' : s'.stack = f :: fs) : Claims fs s' := by
  intro d hd
  rw [hs'] at hd
  rcases List.mem_cons.mp hd with rfl | hd
  · cases hf
  · exact .inl hd

theorem claims_enterBound (s : State) (fs : List Frame) (sbs : List StartBound) :
    Claims fs (enterBound s fs sbs) := by
  cases sbs with
  | nil => exact claims_enterEager _ _ _
  | cons sb rest => exact claims_push (f := .bound sb .onInitialized rest) rfl rfl

theorem claims_enterStart (s : State) (fs : List Frame) : Claims fs (enterStart s fs) := by
  unfold enterStart
  split
  · exact claims_push (f := .beanContext .onInitialized) rfl rfl
  · exact claims_enterBound s.flush fs _

theorem claims_goOn (s : State) (fs : List Frame) : Claims fs (goOn s fs) := by
  unfold goOn
  split
  · exact (claims_enterEager s _ _).mono (List.subset_cons_self _ _)
  · exact claims_of_subset (List.Subset.refl _)

theorem claims_passOn (s : State) (fs : List Frame) : Claims fs (passOn s fs) := by
  unfold passOn
  split
  · exact claims_of_subset (List.subset_cons_self _ _)
  · exact claims_of_subset (List.Subset.refl _)

/-- A step of a started context claims a singleton for a start, or because user code asks for it. -/
theorem step_claims (hs : s.core.started = true) {a : Action} (hstep : step s a = some s') :
    Claims s.stack s' ∨ ∃ d, a = .materialize d ∧ s'.stack = .constructing d :: s.stack ∧
      s'.context = s.context := by
  cases a with
  | start =>
    simp only [step, if_pos hs, Option.some.injEq] at hstep
    -- The frames that a start pushes claim nothing.
    exact .inl (hstep ▸ claims_enterStart { s with again := true } s.stack)
  | on token =>
    obtain ⟨⟩ := hstep
    refine .inl (claims_of_subset ?_)
    split_ifs
    all_goals exact List.Subset.refl _
  | call c =>
    obtain ⟨-, rfl⟩ := call_step hstep
    exact .inl (claims_of_subset (List.Subset.refl _))
  | enter =>
    obtain ⟨-, ⟨⟩⟩ := Option.ite_none_right_eq_some.mp hstep
    exact .inl (claims_push (f := .other) rfl rfl)
  | materialize d =>
    obtain ⟨-, ⟨⟩⟩ := Option.ite_none_right_eq_some.mp hstep
    exact .inr ⟨d, rfl, rfl, rfl⟩
  -- The claim on top is given up with its frame.
  | constructed mem =>
    simp only [step] at hstep
    split at hstep
    · rename_i d fs hstack
      obtain ⟨⟩ := hstep
      refine .inl ((claims_push (f := .announcing mem .onInitialized) rfl rfl).mono ?_)
      rw [hstack]
      exact List.subset_cons_self _ _
    · cases hstep
  | returns =>
    left
    have hstep : returnStep s = some s' := hstep
    unfold returnStep at hstep
    -- A callback returns or throws: frames go, or frames without a claim come.
    split at hstep <;> obtain ⟨⟩ := hstep <;> rename_i hstack <;> rw [hstack] <;>
      refine Claims.mono ?_ (List.subset_cons_self _ _)
    · exact claims_push (f := .beanContext .onCreated) rfl rfl
    · exact claims_enterBound s _ _
    · exact claims_push (f := .bound _ .onCreated _) rfl rfl
    · exact claims_enterBound s _ _
    · exact claims_push (f := .announcing _ .postConstruct) rfl rfl
    · exact claims_push (f := .announcing _ .onCreated) rfl rfl
    · exact claims_goOn s _
    · exact claims_of_subset (List.Subset.refl _)
  | throws =>
    left
    have hstep : throwStep s = some s' := hstep
    unfold throwStep at hstep
    split at hstep <;> obtain ⟨⟩ := hstep <;> rename_i hstack <;> rw [hstack] <;>
      refine Claims.mono ?_ (List.subset_cons_self _ _)
    · exact claims_of_subset (List.Subset.refl _)
    · exact claims_of_subset (List.Subset.refl _)
    · exact claims_passOn _ _
    · exact claims_passOn s _
    · exact claims_passOn s _

/-! ## The order -/

/-- The bean that the start at the bottom of the stack announces, or has taken off its list. -/
inductive Serves (s : State) (c : DescriptorId) : Prop
  | beanContext (event : Event) : s.stack.getLast? = some (.beanContext event) →
      s.core.beanContextDescId = some c → Serves s c
  | bound (sb : StartBound) (event : Event) (rest : List StartBound) :
      s.stack.getLast? = some (.bound sb event rest) → sb.descId = c → Serves s c
  | eager (done rest : List DescriptorId) : s.stack.getLast? = some (.eager rest) →
      s.core.eagerSingletons = done ++ c :: rest → Serves s c

/-- The start announces the context bean or a bound singleton. -/
def State.Announcing (s : State) : Prop :=
  ∃ f, s.stack.getLast? = some f ∧ f.isStart = true ∧ ∀ rest, f ≠ .eager rest

/-- The guard of the runs: while the start announces the context bean or a bound singleton, user
    code asks for no eager singleton before one that has a higher priority than both. -/
def Orderly (s : State) (a : Action) : Prop :=
  match a with
  | .materialize d' => s.Announcing → d' ∈ s.core.eagerSingletons →
      ∀ d ∈ s.core.eagerSingletons, ¬s.Found d → s.core.priorityOf d' < s.core.priorityOf d →
        ∃ c, Serves s c ∧ s.core.priorityOf d ≤ s.core.priorityOf c
  | _ => True

theorem Sweeping.bottom {found : DescriptorId → Prop} (h : Sweeping L found fs)
    {rest : List DescriptorId} (hlast : fs.getLast? = some (.eager rest)) :
    ∃ done c, L = done ++ c :: rest ∧ ∀ e ∈ done, found e := by
  induction h with
  | nil => cases hlast
  | @constructing done _ d fs hL hdone _ ih =>
    cases fs with
    | nil =>
      obtain ⟨⟩ := hlast
      exact ⟨done, d, hL, hdone⟩
    | cons f fs => exact ih hlast
  | @announcing done _ d fs _ _ hL hdone _ _ ih =>
    cases fs with
    | nil =>
      obtain ⟨⟩ := hlast
      exact ⟨done, d, hL, hdone⟩
    | cons f fs => exact ih hlast
  | @call f fs hf _ _ ih =>
    cases fs with
    | nil => exact absurd (Option.some.inj hlast) (hf rest)
    | cons f' fs => exact ih hlast

/-- The list is sorted, so what is missing comes after what has been taken off. -/
theorem Sweep.priority_le (h : Sweep L prio pre s) {c d : DescriptorId} {rest : List DescriptorId}
    (hL : L = done ++ c :: rest) (hdone : ∀ e ∈ done, s.Found e) (hd : d ∈ L)
    (hmissing : ¬s.Found d) : s.core.priorityOf d ≤ s.core.priorityOf c := by
  have hsorted := Registry.eagerSingletons_pairwise s.core
  rw [h.eager, hL] at hsorted
  rw [hL] at hd
  rcases List.mem_append.mp hd with hd | hd
  · exact absurd (hdone d hd) hmissing
  · rcases List.mem_cons.mp hd with rfl | hd
    · exact le_rfl
    · exact (List.pairwise_cons.mp (List.pairwise_append.mp hsorted).2.1).1 d hd

/-- A start that goes through its list serves a bean of at least the priority of what is missing. -/
theorem Sweep.serves (h : Sweep L prio pre s) (hunder : UnderWay L s) (hnot : ¬s.Announcing)
    {d : DescriptorId} (hd : d ∈ L) (hmissing : ¬s.Found d) :
    ∃ c, Serves s c ∧ s.core.priorityOf d ≤ s.core.priorityOf c := by
  rcases hunder with ⟨f, hlast, hstart⟩ | hall
  · cases f with
    | eager rest =>
      obtain ⟨done, c, hL, hdone⟩ := h.sweeping.bottom hlast
      exact ⟨c, .eager done rest hlast (h.eager.trans hL), h.priority_le hL hdone hd hmissing⟩
    | beanContext | bound => exact absurd ⟨_, hlast, rfl, nofun⟩ hnot
    | constructing | announcing | other => cases hstart
  · exact absurd (hall d hd) hmissing

/-- When a singleton is claimed while one of higher priority is missing, the start serves a bean of
    at least that priority. -/
theorem Sweep.claims (h : Sweep L prio pre s) (h' : Sweep L prio pre s') (hunder : UnderWay L s')
    {a : Action} (hstep : Startup.step s a = some s') (hG : Orderly s a) {d d' : DescriptorId}
    (hd : d ∈ L) (hd' : d' ∈ L) (hlt : prio d' < prio d) (hnew : .constructing d' ∉ s.stack)
    (hclaimed : .constructing d' ∈ s'.stack) (hmissing : ¬s'.Found d) :
    ∃ c, Serves s' c ∧ prio d ≤ s'.core.priorityOf c := by
  rw [← h'.priority d hd, ← h'.priority d' hd'] at hlt
  rw [← h'.priority d hd]
  by_cases hannouncing : s'.Announcing
  · rcases step_claims h.started hstep with hclaims | ⟨e, rfl, hstack, hcontext⟩
    · -- Another start has taken the singleton off its list.
      obtain ⟨rest, fs', hstack⟩ := (hclaims d' hclaimed).resolve_left hnew
      have hsweeping := h'.sweeping
      rw [hstack] at hsweeping
      cases hsweeping with
      | constructing hL hdone _ =>
        exact absurd (h'.priority_le hL hdone hd hmissing) (not_le_of_gt hlt)
      | call _ hhead _ => exact absurd rfl (hhead rest)
    · -- User code has asked for it.
      rw [hstack] at hclaimed
      obtain rfl := Frame.constructing.inj ((List.mem_cons.mp hclaimed).resolve_right hnew)
      have hlast : s.stack.getLast? = s'.stack.getLast? := by
        rw [hstack]
        obtain ⟨f, hf, hstart, -⟩ := hannouncing
        rw [hstack] at hf
        cases hs : s.stack with
        | nil =>
          rw [hs] at hf
          rw [← Option.some.inj hf] at hstart
          cases hstart
        | cons g gs => rfl
      have hcore : s'.core = s.core := congrArg BeanContext.core hcontext
      have hmissing : ¬s.Found d := fun hfound => hmissing (by rwa [State.Found, hcore])
      rw [hcore] at hlt ⊢
      rw [State.Announcing, ← hlast] at hannouncing
      obtain ⟨c, hserves, hle⟩ := hG hannouncing (h.eager ▸ hd') d (h.eager ▸ hd) hmissing hlt
      refine ⟨c, ?_, hle⟩
      cases hserves with
      | beanContext event hf hc => exact .beanContext event (hlast ▸ hf) (hcore ▸ hc)
      | bound sb event rest hf hc => exact .bound sb event rest (hlast ▸ hf) hc
      | eager done rest hf hc => exact .eager done rest (hlast ▸ hf) (hcore ▸ hc)
  · exact h'.serves hunder hannouncing hd hmissing

/-! ## Runs -/

/-- While `d'` was under construction, the start served a bean of at least the priority. -/
def NeededBy (s₀ : State) (as : List Action) (priority : ℤ) (d' : DescriptorId) : Prop :=
  ∃ as₁ t, as₁ <+: as ∧ machine.run s₀ as₁ = some t ∧ .constructing d' ∈ t.stack ∧
    ∃ c, Serves t c ∧ priority ≤ t.core.priorityOf c

theorem NeededBy.mono {s₀ : State} {as as' : List Action} {priority : ℤ} {d' : DescriptorId}
    (h : NeededBy s₀ as priority d') (has : as <+: as') : NeededBy s₀ as' priority d' := by
  obtain ⟨as₁, t, hprefix, hrest⟩ := h
  exact ⟨as₁, t, hprefix.trans has, hrest⟩

/-- Of two singletons in the list, the one of lower priority has not been claimed, or the other one
    was there first, or it was needed. -/
def Ordered (L : List DescriptorId) (prio : DescriptorId → ℤ) (pre : List Effect) (s₀ : State)
    (as : List Action) (s : State) : Prop :=
  ∀ d ∈ L, ∀ d' ∈ L, prio d' < prio d →
    .constructing d' ∈ s.stack ∨ d' ∈ built (since pre s) →
      (d ∈ built (since pre s) ∧
        (d' ∈ built (since pre s) → Precedes (built (since pre s)) d d')) ∨
      NeededBy s₀ as (prio d) d'

theorem Sweep.mem_built_iff (h : Sweep L prio pre s) {d : DescriptorId} (hd : d ∈ L) :
    d ∈ built (since pre s) ↔ s.Found d := by
  rw [← List.count_pos_iff, h.once d hd, State.Found]
  split_ifs with hfound <;> simp [hfound]

/-- What is under construction is not there. -/
theorem Sweep.not_found (h : Sweep L prio pre s) {d : DescriptorId} (hd : d ∈ L)
    (hclaimed : .constructing d ∈ s.stack) : ¬s.Found d := by
  have hmem : d ∈ s.materializing := h.claimed ▸ List.mem_filterMap.mpr ⟨_, hclaimed, rfl⟩
  rw [State.Found, h.missing d hd hmem]
  exact Bool.false_ne_true

theorem Ordered.step {s₀ : State} {as : List Action} (hord : Ordered L prio pre s₀ as s)
    (h : Sweep L prio pre s) (h' : Sweep L prio pre s') (hunder : UnderWay L s') {a : Action}
    (hrun : machine.run s₀ (as ++ [a]) = some s') (hstep : Startup.step s a = some s')
    (hG : Orderly s a) : Ordered L prio pre s₀ (as ++ [a]) s' := by
  intro d hd d' hd' hlt htouched
  have hneeded : NeededBy s₀ as (prio d) d' → NeededBy s₀ (as ++ [a]) (prio d) d' :=
    fun hneeded => hneeded.mono (List.prefix_append _ _)
  obtain ⟨es, heffects, hes⟩ : ∃ es, s'.effects = s.effects ++ es ∧ (built es = [] ∨
      ∃ e, built es = [e] ∧ .constructing e ∈ s.stack) := by
    rcases step_effects hstep with ⟨es, hes, hbuilt⟩ | ⟨e, mem, fs, hstack, hes⟩
    · exact ⟨es, hes, .inl hbuilt⟩
    · exact ⟨_, hes, .inr ⟨e, rfl, hstack ▸ List.mem_cons_self⟩⟩
  have hsince : built (since pre s') = built (since pre s) ++ built es := by
    rw [since_append h.effects heffects, built_append]
  by_cases hclaimed : .constructing d' ∈ s'.stack
  · have hunbuilt : d' ∉ built (since pre s') := fun hmem =>
      h'.not_found hd' hclaimed ((h'.mem_built_iff hd').mp hmem)
    by_cases hbuilt : d ∈ built (since pre s')
    · exact .inl ⟨hbuilt, fun hmem => absurd hmem hunbuilt⟩
    · right
      by_cases hold : .constructing d' ∈ s.stack
      · -- It was claimed before.
        refine hneeded ((hord d hd d' hd' hlt (.inl hold)).resolve_left fun hfirst => hbuilt ?_)
        rw [hsince]
        exact List.mem_append_left _ hfirst.1
      · have hmissing : ¬s'.Found d := fun hfound => hbuilt ((h'.mem_built_iff hd).mpr hfound)
        exact ⟨as ++ [a], s', List.prefix_refl _, hrun, hclaimed,
          h.claims h' hunder hstep hG hd hd' hlt hold hclaimed hmissing⟩
  · have hmem := htouched.resolve_left hclaimed
    rw [hsince] at hmem ⊢
    rcases List.mem_append.mp hmem with hmem | hmem
    · -- It was constructed before.
      refine (hord d hd d' hd' hlt (.inr hmem)).imp (fun hfirst => ?_) hneeded
      exact ⟨List.mem_append_left _ hfirst.1, fun _ => (hfirst.2 hmem).append _⟩
    · -- Its constructor has just returned.
      rcases hes with hnil | ⟨e, hes, hstack⟩
      · rw [hnil] at hmem
        cases hmem
      · rw [hes] at hmem ⊢
        obtain rfl := List.mem_singleton.mp hmem
        refine (hord d hd d' hd' hlt (.inl hstack)).imp (fun hfirst => ?_) hneeded
        exact ⟨List.mem_append_left _ hfirst.1, fun _ => precedes_concat hfirst.1⟩

/-- Effects are never undone. -/
theorem thrown_step (hpre : pre <+: s.effects) (h : Thrown pre s) {a : Action}
    (hstep : step s a = some s') : pre <+: s'.effects ∧ Thrown pre s' := by
  obtain ⟨es, hes⟩ : ∃ es, s'.effects = s.effects ++ es := by
    rcases step_effects hstep with ⟨es, hes, -⟩ | ⟨_, _, _, -, hes⟩
    · exact ⟨es, hes⟩
    · exact ⟨_, hes⟩
  refine ⟨hes ▸ hpre.trans (List.prefix_append _ _), ?_⟩
  rw [Thrown, since_append hpre hes]
  exact List.mem_append_left _ h

/-- A run from a state in which a start is under way. -/
theorem Sweep.run {s₀ : State} (h₀ : Sweep L prio pre s₀) (hunder₀ : UnderWay L s₀)
    (hord₀ : Ordered L prio pre s₀ [] s₀) {as : List Action} (hrun : machine.run s₀ as = some s)
    (hG : machine.Along Orderly s₀ as) : pre <+: s.effects ∧ (Thrown pre s ∨
      Sweep L prio pre s ∧ UnderWay L s ∧ Ordered L prio pre s₀ as s) := by
  induction as using List.reverseRecOn generalizing s with
  | nil =>
    obtain rfl := Option.some.inj hrun
    exact ⟨h₀.effects, .inr ⟨h₀, hunder₀, hord₀⟩⟩
  | append_singleton as a ih =>
    obtain ⟨t, ht, hstep⟩ := Machine.run_concat.mp hrun
    obtain ⟨hGas, hGa⟩ := Machine.along_concat ht hG
    obtain ⟨hpre, hthrown | ⟨h, hunder, hord⟩⟩ := ih ht hGas
    · obtain ⟨hpre', hthrown'⟩ := thrown_step hpre hthrown hstep
      exact ⟨hpre', .inl hthrown'⟩
    · have hpre' : pre <+: s.effects := by
        rcases step_effects hstep with ⟨es, hes, -⟩ | ⟨_, _, _, -, hes⟩ <;>
          exact hes ▸ hpre.trans (List.prefix_append _ _)
      refine ⟨hpre', (h.step hunder hstep).imp_right fun ⟨h', hunder'⟩ => ⟨h', hunder', ?_⟩⟩
      exact hord.step h h' hunder' hrun hstep hGa

end Startup

/-! ## The first start -/

namespace Registry

open Attempt

variable {r : Registry} {s : StartState}

/-- The descriptors of the bindings that the start has moved into the store. -/
def BoundApart (s : StartState) : Prop :=
  ∀ rb ∈ s.runtimeBound, ∃ d, s.registry.descriptors[rb.descId]? = some d ∧
    d.origin = .runtimeBinding

theorem boundApart_mergeAndLink (r : Registry) :
    BoundApart (mergeAndLink { registry := r }).state := by
  -- Appending keeps what is known of the earlier ids.
  have hgrow : ∀ {s s' : StartState} {ds : List Descriptor}, BoundApart s →
      s'.registry.descriptors = s.registry.descriptors ++ ds → s'.runtimeBound = s.runtimeBound →
      BoundApart s' := by
    intro s s' ds hs hds hbound rb hrb
    obtain ⟨d, hd, horigin⟩ := hs rb (hbound ▸ hrb)
    refine ⟨d, ?_, horigin⟩
    rw [hds, List.getElem?_append_left (List.getElem?_eq_some_iff.mp hd).1, hd]
  -- Linking changes a descriptor in place and never its origin.
  have hmodify : ∀ (s : StartState) id (f : Descriptor → Descriptor),
      (∀ d, (f d).origin = d.origin) → BoundApart s →
        BoundApart { s with registry := s.registry.modifyDescriptor id f } := by
    intro s id f hf hs rb hrb
    obtain ⟨d, hd, horigin⟩ := hs rb hrb
    refine ⟨if id = rb.descId then f d else d, ?_, ?_⟩
    · rw [modifyDescriptor, List.getElem?_modify, hd]
      rfl
    · split_ifs
      · rw [hf, horigin]
      · exact horigin
  refine andThen_invariant (P := BoundApart) (andThen_invariant (P := BoundApart)
    (forEach_invariant (P := BoundApart) (fun s cd _ hs => ?_) (by rintro _ ⟨⟩)) fun s hs =>
      forEach_invariant (P := BoundApart) (fun s pb _ hs => ?_) hs) fun s hs =>
      andThen_invariant (P := BoundApart)
        (forEach_invariant (P := BoundApart) (fun s link _ hs => ?_) hs) fun s hs =>
        forEach_invariant (P := BoundApart) (fun s link _ hs => ?_) hs
  -- A discovered descriptor is appended and binds nothing.
  · unfold mergeContribution
    split
    · exact hgrow hs rfl rfl
    · split
      · split <;> exact hs
      · exact hs
  -- A binding is appended with its origin.
  · simp only [mergePendingSingleton]
    split_ifs
    · exact hs
    · intro rb hrb
      rcases List.mem_append.mp hrb with hrb | hrb
      · obtain ⟨d, hd, horigin⟩ := hs rb hrb
        exact ⟨d, (List.getElem?_append_left (List.getElem?_eq_some_iff.mp hd).1).trans hd, horigin⟩
      · rw [List.mem_singleton.mp hrb]
        exact ⟨_, List.getElem?_concat_length, rfl⟩
  · unfold linkFactory
    split
    · exact hs
    · exact hmodify s _ _ (fun _ => rfl) hs
  · unfold linkAlias
    split
    · exact hs
    · exact hmodify s _ _ (fun _ => rfl) hs

theorem foldl_store_instances {bound : List StartBound} {d : DescriptorId}
    (h : ∀ rb ∈ bound, rb.descId ≠ d) (ss : SingletonStore) :
    (bound.foldl (fun ss rb => ss.store rb.descId rb.boundInstance) ss).instances d =
      ss.instances d := by
  induction bound generalizing ss with
  | nil => rfl
  | cons rb bound ih =>
    rw [List.foldl_cons, ih fun rb' hrb' => h rb' (List.mem_cons_of_mem _ hrb')]
    exact Function.update_of_ne (h rb List.mem_cons_self).symm _ _

theorem isEager_finishStart (s : StartState) (ctx : Addr) (id : DescriptorId) :
    (finishStart (sortState s) ctx).registry.isEager id =
      (s.registry.descriptors ++ [contextDescriptor s.registry.contextTypeId])[id]?.any fun d =>
        d.lifetime == .singleton && d.origin != .runtimeBinding && !d.lazy &&
          d.primaryDescriptor == some id := by
  have hfields := congrArg (fun l => l[id]?) (finishStart_map s ctx (g := fun d =>
    (d.lifetime, d.origin, d.lazy, d.primaryDescriptor)) fun _ _ => rfl)
  simp only [List.getElem?_map] at hfields
  rw [isEager]
  cases hd : (finishStart (sortState s) ctx).registry.descriptors[id]? with
  | none =>
    rw [hd, Option.map_none] at hfields
    rw [Option.map_eq_none_iff.mp hfields.symm]
  | some d =>
    rw [hd, Option.map_some] at hfields
    obtain ⟨d', hd', heq⟩ := Option.map_eq_some_iff.mp hfields.symm
    simp only [Prod.mk.injEq] at heq
    obtain ⟨hlifetime, horigin, hlazy, hprimary⟩ := heq
    rw [hd', Option.any_some, Option.any_some, hlifetime, horigin, hlazy, hprimary]

/-- The start stores bound instances only. -/
theorem instances_finishStart (h : BoundApart s) (ctx : Addr) {id : DescriptorId}
    (hid : id ∈ (finishStart (sortState s) ctx).registry.eagerSingletons) :
    (finishStart (sortState s) ctx).registry.singletons.instances id = none := by
  rw [mem_eagerSingletons, isEager_finishStart] at hid
  obtain ⟨d, hd⟩ : ∃ d, (s.registry.descriptors ++
      [contextDescriptor s.registry.contextTypeId])[id]? = some d :=
    Option.ne_none_iff_exists'.mp fun hnone => by simp [hnone] at hid
  simp only [hd, Option.any_some, Bool.and_eq_true, bne_iff_ne] at hid
  have horigin : d.origin ≠ .runtimeBinding := hid.1.1.2
  have hcontext : s.registry.descriptors.length ≠ id := by
    rintro rfl
    rw [List.getElem?_concat_length] at hd
    exact horigin (Option.some.inj hd ▸ rfl)
  have hbound : ∀ rb ∈ s.runtimeBound, rb.descId ≠ id := by
    rintro rb hrb rfl
    obtain ⟨d', hd', horigin'⟩ := h rb hrb
    rw [List.getElem?_append_left (List.getElem?_eq_some_iff.mp hd').1, hd'] at hd
    exact horigin (Option.some.inj hd ▸ horigin')
  refine (foldl_store_instances hbound _).trans ?_
  exact Function.update_of_ne hcontext.symm _ _

end Registry

end Ctorium
