import Ctorium.Startup.Eager
import Ctorium.Startup.Stable

/-!
# No singleton is lost

A run constructs singletons at resolutions and during starts, and destroys them when a
start throws. The effects of the run are a ledger of this: what has been constructed and
not destroyed is what the store holds, in the same order.

* `SingletonStore.Wf`: the insertion order lists the stored instances, once each;
* `Ledger`: the store against the effects. `Ledger.constructed` and `Ledger.rollback` are the
  two entries that matter;
* `singletons_conserved`: the ledger is right in all runs in which nested starts are no-ops.
-/

namespace Ctorium

open Attempt

namespace SingletonStore

variable {ss : SingletonStore} {n n' : ℕ} {d : DescriptorId} {mem : Addr}

/-- The instances in the order of their insertion. -/
def entries (ss : SingletonStore) : List (DescriptorId × Addr) :=
  ss.insertionOrder.filterMap fun d => (ss.find d).map (d, ·)

/-- The insertion order has the descriptors with an instance, all of them below `n`. -/
structure Wf (ss : SingletonStore) (n : ℕ) : Prop where
  nodup : ss.insertionOrder.Nodup
  stored : ∀ d, d ∈ ss.insertionOrder ↔ (ss.instances d).isSome = true
  sized : ∀ d ∈ ss.insertionOrder, d < ss.size
  listed : ∀ d ∈ ss.insertionOrder, d < n

theorem Wf.mono (h : ss.Wf n) (hn : n ≤ n') : ss.Wf n' :=
  ⟨h.nodup, h.stored, h.sized, fun d hd => (h.listed d hd).trans_le hn⟩

theorem wf_empty (n : ℕ) : ({} : SingletonStore).Wf n where
  nodup := .nil
  stored d := by simp
  sized d hd := absurd hd List.not_mem_nil
  listed d hd := absurd hd List.not_mem_nil

theorem wf_resize (hempty : ss.insertionOrder = []) (k n : ℕ) : (ss.resize k).Wf n := by
  have horder : (ss.resize k).insertionOrder = [] := hempty
  refine ⟨horder ▸ .nil, fun d => ?_, fun d hd => ?_, fun d hd => ?_⟩
  · rw [horder]
    simp [resize]
  · exact absurd (horder ▸ hd) List.not_mem_nil
  · exact absurd (horder ▸ hd) List.not_mem_nil

theorem Wf.instances_eq_none (h : ss.Wf n) (hd : d ∉ ss.insertionOrder) :
    ss.instances d = none := by
  rw [h.stored, Bool.not_eq_true, Option.isSome_eq_false_iff] at hd
  exact Option.isNone_iff_eq_none.mp hd

theorem Wf.find_eq (h : ss.Wf n) (d : DescriptorId) : ss.find d = ss.instances d := by
  unfold find
  split_ifs with hd
  · rfl
  · exact (h.instances_eq_none fun hmem => hd (h.sized d hmem)).symm

theorem Wf.mem_iff (h : ss.Wf n) : d ∈ ss.insertionOrder ↔ (ss.find d).isSome = true := by
  rw [h.find_eq, h.stored]

theorem Wf.mem_entries (h : ss.Wf n) : (d, mem) ∈ ss.entries ↔ ss.find d = some mem := by
  unfold entries
  rw [List.mem_filterMap]
  constructor
  · rintro ⟨e, -, he⟩
    obtain ⟨m, hm, heq⟩ := Option.map_eq_some_iff.mp he
    obtain ⟨rfl, rfl⟩ := Prod.mk.inj heq
    exact hm
  · intro hfind
    exact ⟨d, h.mem_iff.mpr (by simp [hfind]), by simp [hfind]⟩

theorem Wf.entries_nodup (h : ss.Wf n) : ss.entries.Nodup := by
  refine h.nodup.filterMap fun d d' x hx hx' => ?_
  obtain ⟨m, -, rfl⟩ := Option.map_eq_some_iff.mp hx
  obtain ⟨m', -, heq⟩ := Option.map_eq_some_iff.mp hx'
  exact (Prod.mk.inj heq).1.symm

/-- A new instance comes last. -/
theorem Wf.store (h : ss.Wf n) (hsize : d < ss.size) (hn : d < n) (hnew : d ∉ ss.insertionOrder)
    (mem : Addr) : (ss.store d mem).Wf n ∧ (ss.store d mem).entries = ss.entries ++ [(d, mem)] := by
  refine ⟨⟨?_, fun e => ?_, fun e he => ?_, fun e he => ?_⟩, ?_⟩
  · exact List.nodup_append.mpr ⟨h.nodup, List.nodup_singleton d,
      fun a ha b hb => by rw [List.mem_singleton.mp hb]; exact fun heq => hnew (heq ▸ ha)⟩
  · change e ∈ ss.insertionOrder ++ [d] ↔
      (Function.update ss.instances d (some mem) e).isSome = true
    rw [List.mem_append, List.mem_singleton]
    by_cases he : e = d
    · subst he
      simp
    · rw [Function.update_of_ne he, h.stored, or_iff_left he]
  · rcases List.mem_append.mp he with he | he
    · exact h.sized e he
    · exact List.mem_singleton.mp he ▸ hsize
  · rcases List.mem_append.mp he with he | he
    · exact h.listed e he
    · exact List.mem_singleton.mp he ▸ hn
  · change (ss.insertionOrder ++ [d]).filterMap _ = _
    rw [List.filterMap_append, entries]
    congr 1
    · refine List.filterMap_congr fun e he => ?_
      rw [find_store_of_ne (show e ≠ d from fun heq => hnew (heq ▸ he))]
    · simp [find_store_self hsize mem]

/-- An instance of a new descriptor. -/
theorem Wf.growAndStore (h : ss.Wf n) (hn : n < n') (mem : Addr) :
    (ss.growAndStore n mem).Wf n' ∧
      (ss.growAndStore n mem).entries = ss.entries ++ [(n, mem)] := by
  have hgrown : ({ ss with size := max ss.size (n + 1) } : SingletonStore).Wf n' :=
    ⟨h.nodup, h.stored, fun d hd => (h.sized d hd).trans_le (le_max_left _ _),
      fun d hd => (h.listed d hd).trans hn⟩
  have hentries : ({ ss with size := max ss.size (n + 1) } : SingletonStore).entries =
      ss.entries := by
    refine List.filterMap_congr fun d hd => ?_
    rw [hgrown.find_eq, h.find_eq]
  obtain ⟨hwf, hstored⟩ := hgrown.store (d := n) (lt_max_of_lt_right (Nat.lt_succ_self n)) hn
    (fun hmem => absurd (h.listed n hmem) (lt_irrefl n)) mem
  exact ⟨hwf, hstored.trans (by rw [hentries])⟩

end SingletonStore

namespace Registry

variable {r r' : Registry} {d : DescriptorId}

/-- The library constructs the instances of the descriptor. -/
def constructs (r : Registry) (d : DescriptorId) : Bool :=
  r.descriptors[d]?.any fun desc => desc.origin != .runtimeBinding

theorem lt_of_constructs (h : r.constructs d = true) : d < r.descriptors.length := by
  by_contra hd
  rw [constructs, List.getElem?_eq_none_iff.mpr (Nat.le_of_not_lt hd)] at h
  cases h

theorem sweptSingletons_eq (r : Registry) : r.sweptSingletons = r.singletons.entries.reverse :=
  List.filterMap_reverse

theorem constructs_eq_entries (r : Registry) (d : DescriptorId) :
    r.constructs d = r.entries[d]?.any fun e => e.origin != .runtimeBinding := by
  rw [constructs, entries, List.getElem?_map]
  cases r.descriptors[d]? <;> rfl

/-- A descriptor stays bound, or constructed. -/
theorem Grows.constructs_eq (h : Grows r r') (hd : d < r.descriptors.length) :
    r'.constructs d = r.constructs d := by
  obtain ⟨more, hmore⟩ := h.entries
  rw [constructs_eq_entries, constructs_eq_entries, ← hmore, List.getElem?_append_left]
  rwa [Registry.entries, List.length_map]

theorem Grows.length_le (h : Grows r r') : r.descriptors.length ≤ r'.descriptors.length := by
  have hle := h.entries.length_le
  rwa [Registry.entries, Registry.entries, List.length_map, List.length_map] at hle

theorem constructs_of_mem_eagerSingletons (h : d ∈ r.eagerSingletons) : r.constructs d = true := by
  rw [mem_eagerSingletons, isEager] at h
  rw [constructs]
  cases hd : r.descriptors[d]? with
  | none =>
    rw [hd] at h
    cases h
  | some desc =>
    rw [hd, Option.any_some] at h
    simp only [Bool.and_eq_true] at h
    exact h.1.1.2

/-! ## The store after a start -/

theorem foldl_store_wf {bound : List StartBound} {ss : SingletonStore} {n : ℕ} (h : ss.Wf n)
    (hsize : n ≤ ss.size) (hbound : ∀ rb ∈ bound, rb.descId < n ∧ rb.descId ∉ ss.insertionOrder)
    (hnodup : (bound.map StartBound.descId).Nodup) :
    (bound.foldl (fun ss rb => ss.store rb.descId rb.boundInstance) ss).Wf n ∧
      (bound.foldl (fun ss rb => ss.store rb.descId rb.boundInstance) ss).insertionOrder =
        ss.insertionOrder ++ bound.map StartBound.descId := by
  induction bound generalizing ss with
  | nil => exact ⟨h, (List.append_nil _).symm⟩
  | cons rb bound ih =>
    obtain ⟨hlt, hnew⟩ := hbound rb List.mem_cons_self
    rw [List.map_cons, List.nodup_cons] at hnodup
    obtain ⟨hwf, -⟩ := h.store (hlt.trans_le hsize) hlt hnew rb.boundInstance
    have hrest := ih hwf hsize (fun rb' hrb' => ?_) hnodup.2
    · refine ⟨hrest.1, hrest.2.trans ?_⟩
      rw [List.map_cons]
      exact List.append_assoc _ [rb.descId] _
    · obtain ⟨hlt', hnew'⟩ := hbound rb' (List.mem_cons_of_mem _ hrb')
      refine ⟨hlt', fun hmem => ?_⟩
      rcases List.mem_append.mp hmem with hmem | hmem
      · exact hnew' hmem
      · exact hnodup.1 (List.mem_singleton.mp hmem ▸ List.mem_map_of_mem hrb')

/-- The bindings that the start has merged have descriptors of their own. -/
theorem boundNodup_mergeAndLink (r : Registry) :
    ((mergeAndLink { registry := r }).state.runtimeBound.map StartBound.descId).Nodup := by
  -- The ids bound so far are distinct and below the number of descriptors.
  let P := fun s : StartState => (s.runtimeBound.map StartBound.descId).Nodup ∧
    ∀ rb ∈ s.runtimeBound, rb.descId < s.registry.descriptors.length
  have hgrow : ∀ {s s' : StartState}, P s → s'.runtimeBound = s.runtimeBound →
      s.registry.descriptors.length ≤ s'.registry.descriptors.length → P s' := by
    intro s s' hs hbound hle
    exact ⟨hbound ▸ hs.1, fun rb hrb => (hs.2 rb (hbound ▸ hrb)).trans_le hle⟩
  have hinit : P { registry := r } := ⟨List.nodup_nil, by rintro _ ⟨⟩⟩
  suffices hfinal : P (mergeAndLink { registry := r }).state from hfinal.1
  refine andThen_invariant (P := P) (andThen_invariant (P := P)
    (forEach_invariant (P := P) (fun s cd _ hs => ?_) hinit) fun s hs =>
      forEach_invariant (P := P) (fun s pb _ hs => ?_) hs) fun s hs =>
      andThen_invariant (P := P) (forEach_invariant (P := P) (fun s link _ hs => ?_) hs)
        fun s hs => forEach_invariant (P := P) (fun s link _ hs => ?_) hs
  -- A discovered descriptor binds nothing.
  · unfold mergeContribution
    split
    · refine hgrow hs rfl ?_
      change s.registry.descriptors.length ≤ (s.registry.descriptors ++ [_]).length
      simp
    · split
      · split_ifs <;> exact hs
      · exact hs
  · simp only [mergePendingSingleton]
    split_ifs
    · exact hs
    -- A new binding takes the next id, larger than all before.
    · have hlength : ∀ rb ∈ s.runtimeBound, rb.descId ≠ s.registry.descriptors.length :=
        fun rb hrb => (hs.2 rb hrb).ne
      refine ⟨?_, fun rb hrb => ?_⟩
      · rw [ok_state, List.map_append]
        refine List.nodup_append.mpr ⟨hs.1, List.nodup_singleton _, fun a ha b hb => ?_⟩
        obtain ⟨rb, hrb, rfl⟩ := List.mem_map.mp ha
        rw [List.mem_singleton.mp hb]
        exact hlength rb hrb
      · change rb.descId < (s.registry.descriptors ++ [_]).length
        rw [List.length_append, List.length_singleton]
        rcases List.mem_append.mp hrb with hrb | hrb
        · exact (hs.2 rb hrb).trans (Nat.lt_succ_self _)
        · rw [List.mem_singleton.mp hrb]
          exact Nat.lt_succ_self _
  -- Linking keeps the number of descriptors.
  · unfold linkFactory
    split
    · exact hs
    · exact hgrow hs rfl (List.length_modify ..).ge
  · unfold linkAlias
    split
    · exact hs
    · exact hgrow hs rfl (List.length_modify ..).ge

/-- The context bean has a descriptor, which is bound. -/
def ContextBound (r : Registry) : Prop :=
  ∀ id, r.beanContextDescId = some id → id < r.descriptors.length ∧ r.constructs id = false

theorem ContextBound.grows (h : r.ContextBound) (hgrows : Grows r r')
    (hid : r'.beanContextDescId = r.beanContextDescId) : r'.ContextBound := by
  intro id hsome
  obtain ⟨hlt, hbound⟩ := h id (hid ▸ hsome)
  exact ⟨hlt.trans_le hgrows.length_le, (hgrows.constructs_eq hlt).trans hbound⟩

/-- The registry that a start leaves holds bound instances only. -/
structure Restocked (r : Registry) : Prop where
  wf : r.singletons.Wf r.descriptors.length
  bound : ∀ d ∈ r.singletons.insertionOrder, r.constructs d = false
  context : r.ContextBound

theorem constructs_finishStart (s : StartState) (ctx : Addr) (d : DescriptorId) :
    (finishStart (sortState s) ctx).registry.constructs d =
      (s.registry.descriptors ++ [contextDescriptor s.registry.contextTypeId])[d]?.any
        fun desc => desc.origin != .runtimeBinding := by
  have hfields := congrArg (fun l => l[d]?.any fun o => o != .runtimeBinding)
    (finishStart_map s ctx (g := Descriptor.origin) fun _ _ => rfl)
  rw [constructs]
  simpa only [List.getElem?_map, Option.any_map, Function.comp_def] using hfields

theorem restocked_finishStart {s : StartState} (h : BoundApart s)
    (hnodup : (s.runtimeBound.map StartBound.descId).Nodup)
    (hempty : s.registry.singletons.insertionOrder = []) (ctx : Addr) :
    Restocked (finishStart (sortState s) ctx).registry := by
  -- start() appends the descriptor of the context.
  have hlength : (finishStart (sortState s) ctx).registry.descriptors.length =
      s.registry.descriptors.length + 1 := by
    have hmap := congrArg List.length (finishStart_map s ctx (g := fun _ => ()) fun _ _ => rfl)
    simpa using hmap
  have hbound : ∀ rb ∈ s.runtimeBound, rb.descId < s.registry.descriptors.length := by
    intro rb hrb
    obtain ⟨d, hd, -⟩ := h rb hrb
    exact (List.getElem?_eq_some_iff.mp hd).1
  -- Which the registry does not construct.
  have hcontext : (finishStart (sortState s) ctx).registry.constructs
      s.registry.descriptors.length = false := by
    rw [constructs_finishStart, List.getElem?_concat_length]
    rfl
  -- The store is resized once, filled with the context, then with the bindings in their order.
  obtain ⟨hwf, -⟩ := (SingletonStore.wf_resize hempty (s.registry.descriptors.length + 1)
    (s.registry.descriptors.length + 1)).store (d := s.registry.descriptors.length)
      (Nat.lt_succ_self _) (Nat.lt_succ_self _) (hempty ▸ List.not_mem_nil) ctx
  have horder : ((s.registry.singletons.resize (s.registry.descriptors.length + 1)).store
      s.registry.descriptors.length ctx).insertionOrder = [s.registry.descriptors.length] :=
    congrArg (· ++ [s.registry.descriptors.length]) hempty
  obtain ⟨hfinal, hlisted⟩ := @foldl_store_wf s.runtimeBound _ _ hwf le_rfl
    (fun rb hrb => ⟨(hbound rb hrb).trans (Nat.lt_succ_self _), by
      rw [horder, List.mem_singleton]
      exact (hbound rb hrb).ne⟩) hnodup
  have hsingletons : (finishStart (sortState s) ctx).registry.singletons =
      s.runtimeBound.foldl (fun ss rb => ss.store rb.descId rb.boundInstance)
        ((s.registry.singletons.resize (s.registry.descriptors.length + 1)).store
          s.registry.descriptors.length ctx) := by
    have hsize : (s.registry.descriptors ++ [contextDescriptor s.registry.contextTypeId]).length =
        s.registry.descriptors.length + 1 := by simp
    rw [← hsize]
    rfl
  refine ⟨by rwa [hsingletons, hlength], fun d hd => ?_, fun id hid => ?_⟩
  -- A listed singleton is the context or a bound object.
  · rw [hsingletons, hlisted, horder, List.mem_append, List.mem_singleton] at hd
    rcases hd with rfl | hd
    · exact hcontext
    -- A bound object is not constructed by the registry.
    · obtain ⟨rb, hrb, rfl⟩ := List.mem_map.mp hd
      obtain ⟨desc, hdesc, horigin⟩ := h rb hrb
      rw [constructs_finishStart, List.getElem?_append_left (hbound rb hrb), hdesc,
        Option.any_some, horigin]
      rfl
  · obtain rfl : s.registry.descriptors.length = id := Option.some.inj hid
    exact ⟨hlength ▸ Nat.lt_succ_self _, hcontext⟩

theorem Restocked.start {ctx : Addr} (hempty : r.singletons.insertionOrder = [])
    (hcontext : r.ContextBound) (hnot : r.started = false) (hok : (r.start ctx).failure = none) :
    Restocked (r.start ctx).state := by
  rcases start_cases r ctx with ⟨hs, -⟩ | ⟨descId, -, hid, heq⟩ | ⟨-, -, heq⟩
  · rw [hnot] at hs
    cases hs
  · obtain ⟨hlt, hbound⟩ := hcontext descId hid
    have hresized := SingletonStore.wf_resize hempty r.descriptors.length r.descriptors.length
    obtain ⟨hwf, -⟩ := hresized.store (d := descId) hlt hlt
      (by rw [show (r.singletons.resize r.descriptors.length).insertionOrder = [] from hempty]
          exact List.not_mem_nil) ctx
    rw [heq]
    refine ⟨hwf, fun d hd => ?_, hcontext⟩
    have hd : d ∈ r.singletons.insertionOrder ++ [descId] := hd
    rw [hempty, List.nil_append, List.mem_singleton] at hd
    exact hd ▸ hbound
  · rw [heq] at hok ⊢
    have hstate := (merge_of_ok hok).2.2.2
    have hframe := (Frame.refl r).mergeAndLink (s := { registry := r })
    change Restocked (merge { registry := r } ctx).state.registry
    rw [hstate]
    exact restocked_finishStart (boundApart_mergeAndLink r) (boundNodup_mergeAndLink r)
      (hframe.singletons ▸ hempty) ctx

end Registry

/-! ## Calls -/

/-- A call other than a start leaves the singletons, or adds a bound one. -/
theorem BeanContext.exec_singletons (b : BeanContext) {c : Call} (hc : c ≠ .start) :
    (b.exec c).state.core.singletons = b.core.singletons ∨ b.core.started = true ∧
      b.core.descriptors.length < (b.exec c).state.core.descriptors.length ∧
        ∃ object, (b.exec c).state.core.singletons =
          b.core.singletons.growAndStore b.core.descriptors.length object := by
  cases c with
  -- The one call that stores an object is bindSingleton() on a started context.
  | discover cds =>
    simp only [exec, discover, Registry.submitContribution]
    split_ifs <;> exact .inl rfl
  | bindSingleton type name priority object =>
    simp only [exec, bindSingleton, Registry.bindSingleton]
    split_ifs with hcontext hs
    · exact .inl rfl
    -- Refused for its name, or stored under the id of the new descriptor.
    · simp only [Registry.bindSingletonStarted]
      split_ifs
      · exact .inl rfl
      · refine .inr ⟨hs, ?_, object, rfl⟩
        change b.core.descriptors.length < (b.core.descriptors ++ [_]).length
        simp
    · unfold Registry.bindSingletonPending
      split_ifs <;> exact .inl rfl
  -- A bound session goes to the scope's store.
  | bindSession scope type name priority object =>
    simp only [exec, bindSession]
    split_ifs
    · exact .inl rfl
    · exact .inl rfl
    · rw [placeSession_core]
      exact .inl (Registry.sessionDescriptor_singletons _ _ _ _)
  | defaultNamed scope type name =>
    simp only [exec, defaultNamed]
    split_ifs
    · exact .inl rfl
    · exact .inl rfl
    · split
      · exact .inl rfl
      · split <;> exact .inl rfl
  | clearDefaultNamed scope type =>
    simp only [exec, clearDefaultNamed]
    split_ifs
    · exact .inl rfl
    · split
      · exact .inl rfl
      · split
        · exact .inl rfl
        · split_ifs <;> exact .inl rfl
  | start => exact absurd rfl hc
  -- The calls on scopes leave the root alone.
  | startScope scope => rw [exec, startScope_core]; exact .inl rfl
  | stopScope scope => rw [exec, Attempt.ok_state, stopScope_core]; exact .inl rfl
  | restartScope scope => rw [exec, restartScope_core]; exact .inl rfl

namespace Startup

open Registry (Grows)

/-! ## The ledger -/

/-- What an effect does to the list of the singletons that stand. -/
def stand (standing : List (DescriptorId × Addr)) : Effect → List (DescriptorId × Addr)
  | .constructed d mem => standing ++ [(d, mem)]
  | .startThrew => []
  | .destroyed .. | .dispatched .. => standing

/-- The singletons that have been constructed since the last start that threw. -/
def standing (effects : List Effect) : List (DescriptorId × Addr) := effects.foldl stand []

theorem standing_append (es es' : List Effect) :
    standing (es ++ es') = es'.foldl stand (standing es) := List.foldl_append

/-- The store of a registry, the claimed descriptors and the effects fit together. -/
structure Ledger (r : Registry) (claimed : List DescriptorId) (effects : List Effect) : Prop where
  interned : r.Interned
  context : r.ContextBound
  wf : r.singletons.Wf r.descriptors.length
  room : r.started = true → ∀ d, r.constructs d = true → d < r.singletons.size
  unstarted : r.started = false → r.singletons.insertionOrder = []
  nodup : claimed.Nodup
  claimed : ∀ d ∈ claimed, r.constructs d = true ∧ d ∉ r.singletons.insertionOrder
  standing : standing effects = r.singletons.entries.filter fun x => r.constructs x.1
  logged : ∀ d mem, .constructed d mem ∈ effects ∨ .destroyed d mem ∈ effects →
    d < r.descriptors.length
  balance : ∀ d mem, r.constructs d = true → effects.count (.constructed d mem) =
    effects.count (.destroyed d mem) + if r.singletons.find d = some mem then 1 else 0

variable {r r' : Registry} {claimed : List DescriptorId} {effects : List Effect}
  {d : DescriptorId} {mem : Addr}

theorem ledger_init (S : StdSort) : Ledger { stdSort := S } [] [] where
  interned := Registry.interned_empty S
  context id hid := by cases hid
  wf := SingletonStore.wf_empty _
  room _ d hd := absurd (Registry.lt_of_constructs hd) (Nat.not_lt_zero d)
  unstarted _ := rfl
  nodup := .nil
  claimed d hd := absurd hd List.not_mem_nil
  standing := rfl
  logged d mem hmem := by simp at hmem
  balance d mem hd := absurd (Registry.lt_of_constructs hd) (Nat.not_lt_zero d)

namespace Ledger

/-- The registry grows, and adopts instances that it has not constructed. -/
theorem adopt (h : Ledger r claimed effects) (hgrows : Grows r r') (hcontext : r'.ContextBound)
    (hwf : r'.singletons.Wf r'.descriptors.length) {bound : List (DescriptorId × Addr)}
    (hentries : r'.singletons.entries = r.singletons.entries ++ bound)
    (hbound : ∀ x ∈ bound, r'.constructs x.1 = false)
    (hroom : r'.started = true → ∀ d, r'.constructs d = true → d < r'.singletons.size)
    (hunstarted : r'.started = false → r'.singletons.insertionOrder = []) :
    Ledger r' claimed effects := by
  have hfind : ∀ d mem, r'.constructs d = true →
      (r'.singletons.find d = some mem ↔ r.singletons.find d = some mem) := by
    intro d mem hd
    rw [← hwf.mem_entries, ← h.wf.mem_entries, hentries, List.mem_append]
    refine or_iff_left fun hmem => ?_
    rw [hbound _ hmem] at hd
    cases hd
  refine ⟨hgrows.interned, hcontext, hwf, hroom, hunstarted, h.nodup, fun d hd => ?_, ?_,
    fun d mem hmem => ?_,
    fun d mem hd => ?_⟩
  · obtain ⟨hconstructs, hnew⟩ := h.claimed d hd
    have hconstructs' : r'.constructs d = true :=
      (hgrows.constructs_eq (Registry.lt_of_constructs hconstructs)).trans hconstructs
    refine ⟨hconstructs', fun hmem => hnew ?_⟩
    obtain ⟨mem, hmem⟩ := Option.isSome_iff_exists.mp (hwf.mem_iff.mp hmem)
    exact h.wf.mem_iff.mpr (by rw [(hfind d mem hconstructs').mp hmem]; rfl)
  · have hnil : bound.filter (fun x => r'.constructs x.1) = [] :=
      List.filter_eq_nil_iff.mpr fun x hx => by simp [hbound x hx]
    rw [h.standing, hentries, List.filter_append, hnil, List.append_nil]
    refine List.filter_congr fun x hx => ?_
    obtain ⟨e, he, hmap⟩ := List.mem_filterMap.mp hx
    obtain ⟨m, -, rfl⟩ := Option.map_eq_some_iff.mp hmap
    exact (hgrows.constructs_eq (h.wf.listed e he)).symm
  · exact (h.logged d mem hmem).trans_le hgrows.length_le
  · by_cases hold : d < r.descriptors.length
    · rw [h.balance d mem (hgrows.constructs_eq hold ▸ hd)]
      simp only [hfind d mem hd]
    · -- The descriptor is new, and has not been heard of.
      have hnone : r.singletons.find d ≠ some mem := fun hsome =>
        hold (h.wf.listed d (h.wf.mem_iff.mpr (by rw [hsome]; rfl)))
      have hconstructed : Effect.constructed d mem ∉ effects := fun hmem =>
        hold (h.logged d mem (.inl hmem))
      have hdestroyed : Effect.destroyed d mem ∉ effects := fun hmem =>
        hold (h.logged d mem (.inr hmem))
      rw [if_neg fun hsome =>
        hnone ((hfind d mem hd).mp hsome), List.count_eq_zero.mpr hconstructed,
        List.count_eq_zero.mpr hdestroyed]

/-- The registry grows around the same store. -/
theorem grows (h : Ledger r claimed effects) (hgrows : Grows r r')
    (hid : r'.beanContextDescId = r.beanContextDescId) (hsingletons : r'.singletons = r.singletons)
    (hstarted : r'.started = r.started)
    (hbound : r.started = true → ∀ d, r'.constructs d = true → d < r.descriptors.length) :
    Ledger r' claimed effects := by
  have hentries : r'.singletons.entries = r.singletons.entries ++ [] := by
    rw [hsingletons, List.append_nil]
  refine h.adopt hgrows (h.context.grows hgrows hid) (hsingletons ▸ h.wf.mono hgrows.length_le)
    hentries (fun x hx => absurd hx List.not_mem_nil) (fun hs d hd => ?_) fun hs => ?_
  · rw [hstarted] at hs
    have hold := hbound hs d hd
    rw [hsingletons]
    exact h.room hs d (hgrows.constructs_eq hold ▸ hd)
  · rw [hstarted] at hs
    rw [hsingletons]
    exact h.unstarted hs

/-- The tables, the store and the state of the registry are the same. -/
theorem of_eq (h : Ledger r claimed effects) (hgrows : Grows r r')
    (hid : r'.beanContextDescId = r.beanContextDescId) (hds : r'.descriptors = r.descriptors)
    (hsingletons : r'.singletons = r.singletons) (hstarted : r'.started = r.started) :
    Ledger r' claimed effects :=
  h.grows hgrows hid hsingletons hstarted fun _ _ hd => hds ▸ Registry.lt_of_constructs hd

theorem dispatched (h : Ledger r claimed effects) (object : Addr) (event : Event) :
    Ledger r claimed (effects ++ [.dispatched object event]) where
  interned := h.interned
  context := h.context
  wf := h.wf
  room := h.room
  unstarted := h.unstarted
  nodup := h.nodup
  claimed := h.claimed
  standing := by
    rw [standing_append]
    exact h.standing
  logged d mem hmem := h.logged d mem (by simpa using hmem)
  balance d mem hd := by simpa using h.balance d mem hd

/-- A descriptor that has no instance is claimed for a construction. -/
theorem claim (h : Ledger r claimed effects) (hd : r.constructs d = true) (hnew : d ∉ claimed)
    (hmissing : d ∉ r.singletons.insertionOrder) : Ledger r (d :: claimed) effects where
  interned := h.interned
  context := h.context
  wf := h.wf
  room := h.room
  unstarted := h.unstarted
  nodup := List.nodup_cons.mpr ⟨hnew, h.nodup⟩
  claimed e he := by
    rcases List.mem_cons.mp he with rfl | he
    · exact ⟨hd, hmissing⟩
    · exact h.claimed e he
  standing := h.standing
  logged := h.logged
  balance := h.balance

theorem unclaim (h : Ledger r claimed effects) (d : DescriptorId) :
    Ledger r (claimed.erase d) effects where
  interned := h.interned
  context := h.context
  wf := h.wf
  room := h.room
  unstarted := h.unstarted
  nodup := h.nodup.erase d
  claimed e he := h.claimed e (List.mem_of_mem_erase he)
  standing := h.standing
  logged := h.logged
  balance := h.balance

/-- The instance of a claimed descriptor is constructed, and comes last. -/
theorem constructed (h : Ledger r claimed effects) (hs : r.started = true) (hd : d ∈ claimed)
    (mem : Addr) : Ledger { r with singletons := r.singletons.store d mem } (claimed.erase d)
      (effects ++ [.constructed d mem]) := by
  obtain ⟨hconstructs, hnew⟩ := h.claimed d hd
  have hlt := Registry.lt_of_constructs hconstructs
  have hsize := h.room hs d hconstructs
  obtain ⟨hwf, hentries⟩ := h.wf.store hsize hlt hnew mem
  -- Nothing was stored under `d`: a claim is of a missing singleton.
  have hnone : r.singletons.find d = none := by
    rw [h.wf.find_eq]
    exact h.wf.instances_eq_none hnew
  refine ⟨⟨h.interned.indexed, h.interned.named, h.interned.pending⟩, h.context, hwf, h.room,
    fun hs' => ?_, h.nodup.erase d, fun e he => ?_, ?_, fun e m hmem => ?_, fun e m he => ?_⟩
  -- The context is started, so the clause before the start is void.
  · rw [hs] at hs'
    cases hs'
  -- The other claims: their singletons are still missing.
  · obtain ⟨he', hne⟩ := h.nodup.mem_erase_iff.mp he |>.symm
    obtain ⟨hconstructs', hnew'⟩ := h.claimed e he'
    refine ⟨hconstructs', fun hmem => ?_⟩
    rcases List.mem_append.mp hmem with hmem | hmem
    · exact hnew' hmem
    · exact hne (List.mem_singleton.mp hmem)
  -- The standing list grows by exactly the instance just constructed.
  · have hfilter : ({ r with singletons := r.singletons.store d mem } : Registry).constructs =
        r.constructs := rfl
    rw [standing_append, List.foldl_cons, List.foldl_nil, stand, h.standing, hentries,
      List.filter_append, hfilter, List.filter_singleton, hconstructs, cond_true]
  -- What is logged is below the number of descriptors, `d` too.
  · rcases hmem with hmem | hmem
    · rcases List.mem_append.mp hmem with hmem | hmem
      · exact h.logged e m (.inl hmem)
      · obtain ⟨rfl, rfl⟩ := Effect.constructed.inj (List.mem_singleton.mp hmem)
        exact hlt
    · refine h.logged e m (.inr ?_)
      simpa using hmem
  -- Constructed as often as destroyed plus stored: one more of `mem` on both sides.
  · have hbalance := h.balance e m he
    rw [List.count_append, List.count_append, List.count_singleton, List.count_singleton]
    by_cases heq : e = d
    · subst heq
      have hfind : (r.singletons.store e mem).find e = some mem :=
        SingletonStore.find_store_self hsize mem
      rw [hnone] at hbalance
      simp only [hfind, hbalance]
      by_cases hm : m = mem
      · subst hm
        simp
      · simp [Ne.symm hm]
    -- The count of another descriptor is untouched.
    · have hfind : (r.singletons.store d mem).find e = r.singletons.find e :=
        SingletonStore.find_store_of_ne heq mem
      simp only [hfind, hbalance]
      simp [Ne.symm heq]

/-- The instances that a rollback destroys are those in the store, the last one first. -/
theorem swept_eq (h : Ledger r claimed effects) :
    (if r.started then r.sweptSingletons.map fun x => Effect.destroyed x.1 x.2 else []) =
      r.singletons.entries.reverse.map fun x => .destroyed x.1 x.2 := by
  rw [Registry.sweptSingletons_eq]
  split_ifs with hs
  · rfl
  · rw [SingletonStore.entries, h.unstarted (Bool.eq_false_of_not_eq_true hs)]
    rfl

/-- A start that throws destroys all instances, and leaves the store empty. -/
theorem rollback (h : Ledger r claimed effects) :
    Ledger r.rollbackFailedStart [] (effects ++
      ((if r.started then r.sweptSingletons.map fun x => .destroyed x.1 x.2 else []) ++
        [.startThrew])) := by
  -- The rollback keeps the tables and empties the store.
  have hsame := Registry.sameTables_rollbackFailedStart r
  have hconstructs : r.rollbackFailedStart.constructs = r.constructs := by
    funext d
    rw [Registry.constructs, hsame.descriptors, Registry.constructs]
  -- A context that is not started has nothing stored.
  have hempty : r.rollbackFailedStart.singletons.insertionOrder = [] := by
    unfold Registry.rollbackFailedStart Registry.stopOwnedBeans
    split_ifs with hs
    · rfl
    · exact h.unstarted (Bool.eq_false_of_not_eq_true hs)
  have hwf : r.rollbackFailedStart.singletons.Wf r.rollbackFailedStart.descriptors.length := by
    rw [hsame.descriptors]
    unfold Registry.rollbackFailedStart Registry.stopOwnedBeans
    split_ifs
    · exact SingletonStore.wf_empty _
    · exact h.wf
  have hfind : ∀ d, r.rollbackFailedStart.singletons.find d = none := fun d => by
    rw [hwf.find_eq]
    exact hwf.instances_eq_none (hempty ▸ List.not_mem_nil)
  -- Started or not before, it is not started afterwards.
  have hnot : r.rollbackFailedStart.started = false := by
    unfold Registry.rollbackFailedStart Registry.stopOwnedBeans
    split_ifs with hs
    · rfl
    · exact Bool.eq_false_of_not_eq_true hs
  rw [h.swept_eq]
  have hgrows := Grows.sameTables h.interned hsame
  refine ⟨hgrows.interned, h.context.grows hgrows hsame.beanContextDescId, hwf, fun hs => ?_,
    fun _ => hempty, .nil,
    fun d hd => absurd hd List.not_mem_nil, ?_, fun d mem hmem => ?_, fun d mem hd => ?_⟩
  · rw [hnot] at hs
    cases hs
  -- Every instance still standing is destroyed: none is left.
  · have hentries : r.rollbackFailedStart.singletons.entries = [] := by
      rw [SingletonStore.entries, hempty, List.filterMap_nil]
    rw [hentries, List.filter_nil, ← List.append_assoc, standing_append]
    rfl
  · rw [hsame.descriptors]
    -- Each destruction is of an instance that the ledger has logged.
    have hcases : (.constructed d mem ∈ effects ∨ .destroyed d mem ∈ effects) ∨
        (d, mem) ∈ r.singletons.entries := by
      simpa [or_assoc] using hmem
    rcases hcases with hmem | hmem
    · exact h.logged d mem hmem
    · exact h.wf.listed d (h.wf.mem_iff.mpr (by rw [h.wf.mem_entries.mp hmem]; rfl))
  -- Distinct entries give distinct destructions, so each is counted once.
  · have hinjective : Function.Injective fun x : DescriptorId × Addr =>
      Effect.destroyed x.1 x.2 := by
      rintro ⟨e, m⟩ ⟨e', m'⟩ heq
      obtain ⟨rfl, rfl⟩ := Effect.destroyed.inj heq
      rfl
    have hconstructed : List.count (Effect.constructed d mem)
        (r.singletons.entries.reverse.map fun x => .destroyed x.1 x.2) = 0 :=
      List.count_eq_zero.mpr fun hmem => by simp at hmem
    have hdestroyed : List.count (Effect.destroyed d mem)
        (r.singletons.entries.reverse.map fun x => .destroyed x.1 x.2) =
          if r.singletons.find d = some mem then 1 else 0 := by
      rw [List.count_map_of_injective _ _ hinjective (d, mem), List.count_reverse,
        h.wf.entries_nodup.count]
      simp only [h.wf.mem_entries]
    -- What was stored before is what is destroyed now.
    rw [List.count_append, List.count_append, List.count_append, List.count_append, hconstructed,
      hdestroyed, h.balance d mem (hconstructs ▸ hd), hfind]
    simp

/-- A start that succeeds brings the bound instances into the store. -/
theorem start (h : Ledger r claimed effects) {ctx : Addr} (hnot : r.started = false)
    (hok : (r.start ctx).failure = none) : Ledger (r.start ctx).state claimed effects := by
  have hempty := h.unstarted hnot
  obtain ⟨hwf, hbound, hcontext⟩ := Registry.Restocked.start hempty h.context hnot hok
  have hbegun : Registry.Begun r (r.start ctx).state :=
    Registry.begun_start hnot (show r.start ctx = ⟨(r.start ctx).state, none⟩ by rw [← hok])
  have hentries : (r.start ctx).state.singletons.entries =
      r.singletons.entries ++ (r.start ctx).state.singletons.entries := by
    rw [show r.singletons.entries = [] by rw [SingletonStore.entries, hempty, List.filterMap_nil],
      List.nil_append]
  refine h.adopt (.start h.interned ctx) hcontext hwf hentries ?_ (fun _ d hd => ?_) fun hs => ?_
  · rintro ⟨d, mem⟩ hmem
    refine hbound d (hwf.mem_iff.mpr ?_)
    rw [hwf.mem_entries.mp hmem]
    rfl
  · exact (Registry.lt_of_constructs hd).trans_le hbegun.size
  · rw [hbegun.started] at hs
    cases hs

/-- A start that fails leaves the store alone. -/
theorem start_fails (h : Ledger r claimed effects) {ctx : Addr} (hnot : r.started = false)
    (hfail : (r.start ctx).failure ≠ none) : Ledger (r.start ctx).state claimed effects := by
  have hgrows := Grows.start h.interned ctx
  have hframe : Registry.Frame r (r.start ctx).state := by
    rcases Registry.start_cases r ctx with ⟨hs, -⟩ | ⟨_, -, -, heq⟩ | ⟨-, -, heq⟩
    · rw [hnot] at hs
      cases hs
    · rw [heq] at hfail
      exact absurd rfl hfail
    · rw [heq] at hfail ⊢
      obtain ⟨e, he⟩ := Option.ne_none_iff_exists'.mp hfail
      exact (Registry.Frame.refl r).merge_of_fail he
  refine h.grows hgrows hframe.beanContextDescId hframe.singletons hframe.started fun hs => ?_
  rw [hnot] at hs
  cases hs

/-- A call other than a start adopts the instances that it binds. -/
theorem exec {b : BeanContext} (h : Ledger b.core claimed effects) {c : BeanContext.Call}
    (hc : c ≠ .start) : Ledger (b.exec c).state.core claimed effects := by
  have hgrows := BeanContext.exec_grows h.interned c
  have hcontinues := b.exec_continues c hc
  have hid := b.exec_beanContextDescId hc
  -- A call adds runtime bindings only, and these are not constructed.
  have hbound : ∀ d, (b.exec c).state.core.constructs d = true → d < b.core.descriptors.length := by
    intro d hd
    obtain ⟨ds, hds, horigin⟩ := hcontinues.descriptors
    by_contra hnew
    rw [Registry.constructs, hds, List.getElem?_append_right (Nat.le_of_not_lt hnew)] at hd
    cases hdesc : ds[d - b.core.descriptors.length]? with
    | none =>
      rw [hdesc] at hd
      cases hd
    | some desc =>
      rw [hdesc, Option.any_some, horigin desc (List.mem_of_getElem? hdesc)] at hd
      cases hd
  -- No singleton stored, or one more: an object bound on the started context.
  rcases b.exec_singletons hc with hsame | ⟨hs, hlt, object, hgrown⟩
  · exact h.grows hgrows hid hsame hcontinues.started fun _ => hbound
  · obtain ⟨hwf, hentries⟩ := h.wf.growAndStore hlt object
    refine h.adopt hgrows (h.context.grows hgrows hid) (hgrown ▸ hwf) (hgrown ▸ hentries) ?_
      (fun _ d hd => ?_) fun hnot => ?_
    -- The bound object is not of the constructed ones.
    · intro x hx
      rw [List.mem_singleton.mp hx]
      exact Bool.eq_false_of_not_eq_true fun hd => absurd (hbound _ hd) (lt_irrefl _)
    · have hold := hbound d hd
      exact (h.room hs d (hgrows.constructs_eq hold ▸ hd)).trans_le hcontinues.size
    · rw [hcontinues.started, hs] at hnot
      cases hnot

theorem same (h : Ledger r claimed effects) (hsame : Registry.SameTables r r')
    (hsingletons : r'.singletons = r.singletons) (hstarted : r'.started = r.started) :
    Ledger r' claimed effects :=
  h.of_eq (.sameTables h.interned hsame) hsame.beanContextDescId hsame.descriptors hsingletons
    hstarted

end Ledger

/-! ## Steps -/

variable {s s' : State} {fs : List Frame}

/-- The starts among the functions under way go on with descriptors whose instances they
    construct. -/
def Waiting (r : Registry) (fs : List Frame) : Prop :=
  ∀ rest, Frame.eager rest ∈ fs → ∀ d ∈ rest, r.constructs d = true

/-- The ledger of a state. -/
structure Conserved (s : State) : Prop where
  ledger : Ledger s.core s.materializing s.effects
  waiting : Waiting s.core s.stack

theorem Waiting.push (h : Waiting r fs) {f : Frame} (hf : ∀ rest, f ≠ .eager rest) :
    Waiting r (f :: fs) := by
  intro rest hmem
  rcases List.mem_cons.mp hmem with heq | hmem
  · exact absurd heq.symm (hf rest)
  · exact h rest hmem

theorem Waiting.tail {f : Frame} (h : Waiting r (f :: fs)) : Waiting r fs :=
  fun rest hmem => h rest (List.mem_cons_of_mem f hmem)

theorem Waiting.congr (h : Waiting r fs) (hds : r'.descriptors = r.descriptors) :
    Waiting r' fs := by
  intro rest hmem d hd
  rw [Registry.constructs, hds]
  exact h rest hmem d hd

theorem Waiting.grows (h : Waiting r fs) (hgrows : Grows r r') : Waiting r' fs := by
  intro rest hmem d hd
  have hconstructs := h rest hmem d hd
  exact (hgrows.constructs_eq (Registry.lt_of_constructs hconstructs)).trans hconstructs

theorem conserved_rollback (h : Ledger s.core s.materializing s.effects) (hfs : Waiting s.core fs) :
    Conserved (s.rollback.setStack fs) :=
  ⟨h.rollback, hfs.congr (Registry.sameTables_rollbackFailedStart s.core).descriptors⟩

theorem conserved_enterEager (h : Ledger s.core s.materializing s.effects)
    (hfs : Waiting s.core fs) {ds : List DescriptorId}
    (hds : ∀ d ∈ ds, s.core.constructs d = true) : Conserved (enterEager s fs ds) := by
  induction ds with
  | nil => exact ⟨h.same ⟨rfl, rfl, rfl, rfl, rfl, rfl, rfl, id⟩ rfl rfl, hfs.congr rfl⟩
  | cons d ds ih =>
    have hd := hds d List.mem_cons_self
    have hds' : ∀ e ∈ ds, s.core.constructs e = true := fun e he =>
      hds e (List.mem_cons_of_mem d he)
    rw [enterEager]
    split_ifs with hfound hclaimed
    · exact ih hds'
    · exact conserved_rollback h hfs
    · refine ⟨h.claim hd hclaimed fun hmem => hfound (h.wf.mem_iff.mp hmem), ?_⟩
      refine Waiting.push ?_ (by rintro _ ⟨⟩)
      intro rest hmem
      rcases List.mem_cons.mp hmem with heq | hmem
      · obtain rfl := Frame.eager.inj heq
        exact hds'
      · exact hfs rest hmem

theorem conserved_enterBound (h : Ledger s.core s.materializing s.effects)
    (hfs : Waiting s.core fs) (sbs : List StartBound) : Conserved (enterBound s fs sbs) := by
  cases sbs with
  | nil =>
    refine conserved_enterEager (s := s.setCore { s.core with startLifecyclePending := [] })
      (h.same ⟨rfl, rfl, rfl, rfl, rfl, rfl, rfl, id⟩ rfl rfl) (hfs.congr rfl) fun d hd => ?_
    exact Registry.constructs_of_mem_eagerSingletons hd
  | cons sb rest => exact ⟨h.dispatched _ _, hfs.push (by rintro _ ⟨⟩)⟩

theorem conserved_enterStart (h : Ledger s.core s.materializing s.effects)
    (hfs : Waiting s.core fs) : Conserved (enterStart s fs) := by
  unfold enterStart
  split_ifs
  · have hsame : Ledger { s.core with beanContextStartLifecyclePending := false } s.materializing
        s.effects := h.same ⟨rfl, rfl, rfl, rfl, rfl, rfl, rfl, id⟩ rfl rfl
    exact ⟨hsame.dispatched _ _, Waiting.push (hfs.congr rfl) (by rintro _ ⟨⟩)⟩
  · exact conserved_enterBound (s := s.flush) h hfs _

theorem conserved_firstStart (h : Conserved s) (hnot : s.core.started = false) :
    Conserved (firstStart s) := by
  have hgrows := Grows.start h.ledger.interned s.context.self
  unfold firstStart
  split
  · next core heq =>
    have hstarted := h.ledger.start hnot
      (show (s.core.start s.context.self).failure = none by rw [heq])
    rw [heq] at hstarted hgrows
    exact conserved_enterStart
      (s := { s.setCore core with submitted := core.pending, again := false }) hstarted
      (h.waiting.grows hgrows)
  · next core e heq =>
    have hfailed := h.ledger.start_fails hnot (show (s.core.start s.context.self).failure ≠ none by
      rw [heq]
      exact Option.some_ne_none e)
    rw [heq] at hfailed hgrows
    exact conserved_rollback (s := s.setCore core) hfailed (h.waiting.grows hgrows)

theorem conserved_goOn (h : Ledger s.core s.materializing s.effects) (hfs : Waiting s.core fs) :
    Conserved (goOn s fs) := by
  unfold goOn
  split
  · next rest fs => exact conserved_enterEager h hfs.tail (hfs rest List.mem_cons_self)
  · exact ⟨h, hfs⟩

theorem conserved_passOn (h : Ledger s.core s.materializing s.effects) (hfs : Waiting s.core fs) :
    Conserved (passOn s fs) := by
  unfold passOn
  split
  · exact conserved_rollback h hfs.tail
  · exact ⟨h, hfs⟩

theorem Conserved.returned (h : Conserved s) (hstep : returnStep s = some s') : Conserved s' := by
  obtain ⟨hledger, hwaiting⟩ := h
  unfold returnStep at hstep
  split at hstep <;> obtain ⟨⟩ := hstep <;> rename_i hstack <;> rw [hstack] at hwaiting
  · exact ⟨hledger.dispatched _ _, hwaiting.tail.push (by rintro _ ⟨⟩)⟩
  · exact conserved_enterBound hledger hwaiting.tail _
  · exact ⟨hledger.dispatched _ _, hwaiting.tail.push (by rintro _ ⟨⟩)⟩
  · exact conserved_enterBound hledger hwaiting.tail _
  · exact ⟨hledger, hwaiting.tail.push (by rintro _ ⟨⟩)⟩
  · exact ⟨hledger.dispatched _ _, hwaiting.tail.push (by rintro _ ⟨⟩)⟩
  · exact conserved_goOn hledger hwaiting.tail
  · exact ⟨hledger, hwaiting.tail⟩

theorem Conserved.thrown (h : Conserved s) (hstep : throwStep s = some s') : Conserved s' := by
  obtain ⟨hledger, hwaiting⟩ := h
  unfold throwStep at hstep
  split at hstep <;> obtain ⟨⟩ := hstep <;> rename_i hstack <;> rw [hstack] at hwaiting
  · exact conserved_rollback hledger hwaiting.tail
  · exact conserved_rollback hledger hwaiting.tail
  · exact conserved_passOn (s := { s with materializing := s.materializing.erase _ })
      (hledger.unclaim _) hwaiting.tail
  · exact conserved_passOn hledger hwaiting.tail
  · exact conserved_passOn hledger hwaiting.tail

/-- Every step balances the ledger. -/
theorem Conserved.step (h : Conserved s) (hi : Inv s) {a : Action} (hstep : step s a = some s') :
    Conserved s' := by
  cases a with
  -- start() again enters the frames; the first one merges before.
  | start =>
    simp only [Startup.step] at hstep
    split_ifs at hstep with hs hstack
    · obtain ⟨⟩ := hstep
      exact conserved_enterStart (s := { s with again := true }) h.ledger h.waiting
    · obtain ⟨⟩ := hstep
      exact conserved_firstStart h (Bool.eq_false_of_not_eq_true hs)
  | on token =>
    obtain ⟨⟩ := hstep
    split_ifs <;> exact ⟨h.ledger, h.waiting⟩
  | call c =>
    obtain ⟨hc, rfl⟩ := call_step hstep
    -- A call that is no start: the tables grow and the ledger grows with them.
    exact ⟨h.ledger.exec hc, h.waiting.grows (BeanContext.exec_grows h.ledger.interned c)⟩
  | enter =>
    obtain ⟨hs, ⟨⟩⟩ := Option.ite_none_right_eq_some.mp hstep
    exact ⟨h.ledger, h.waiting.push (by rintro _ ⟨⟩)⟩
  | materialize d =>
    obtain ⟨hd, ⟨⟩⟩ := Option.ite_none_right_eq_some.mp hstep
    -- What may be claimed: started, constructed by the registry, missing, not claimed.
    simp only [constructible, Bool.and_eq_true, decide_eq_true_eq] at hd
    obtain ⟨⟨⟨hs, hdesc⟩, hmissing⟩, hclaimed⟩ := hd
    refine ⟨h.ledger.claim ?_ hclaimed fun hmem => ?_, h.waiting.push (by rintro _ ⟨⟩)⟩
    · rw [Registry.constructs]
      cases hget : s.core.descriptors[d]? with
      | none =>
        rw [hget] at hdesc
        cases hdesc
      | some desc =>
        rw [hget, Option.any_some] at hdesc
        simp only [Bool.and_eq_true] at hdesc
        exact hdesc.1.2
    -- A singleton that was stored is not missing.
    · rw [Option.isNone_eq_false_iff.mpr (h.ledger.wf.mem_iff.mp hmem)] at hmissing
      cases hmissing
  | constructed mem =>
    simp only [Startup.step] at hstep
    split at hstep
    · next d fs hstack =>
      obtain ⟨⟩ := hstep
      have hs := hi.started (by rw [hstack]; exact List.cons_ne_nil _ _)
      -- The frame on top is of a claim.
      have hd : d ∈ s.materializing := by
        rw [hi.claimed, hstack]
        exact List.mem_cons_self
      have hwaiting := h.waiting
      rw [hstack] at hwaiting
      refine ⟨?_, Waiting.push (hwaiting.tail.congr rfl) (by rintro _ ⟨⟩)⟩
      have hledger := (h.ledger.constructed hs hd mem).dispatched mem .onInitialized
      rwa [List.append_assoc] at hledger
    · cases hstep
  | returns => exact h.returned hstep
  | throws => exact h.thrown hstep

theorem conserved_init (S : StdSort) (self : Addr) : Conserved { context := .fresh S self } :=
  ⟨ledger_init S, fun _ hmem => absurd hmem List.not_mem_nil⟩

theorem conserved_reachable (hs : machine.ReachableBy Guard s) : Conserved s := by
  refine (hs.invariant (P := fun s => Inv s ∧ Conserved s) ?_ fun s a s' h hG hstep =>
    ⟨h.1.step hG hstep, h.2.step h.1 hstep⟩).2
  rintro s ⟨S, self, rfl⟩
  exact ⟨inv_init S self, conserved_init S self⟩

/-! ## Runs -/

/-- In every run in which nested starts are no-ops: the singletons that have been constructed since
    the last start that threw are those in the store, and a sweep destroys them in the reverse
    order; each one has been destroyed as often as it has been constructed, but for the one that the
    store holds; and a registry that is not started holds none. -/
theorem singletons_conserved (s : State) (hs : machine.ReachableBy Guard s) :
    standing s.effects = s.core.singletons.entries.filter (fun x => s.core.constructs x.1) ∧
      s.core.sweptSingletons.filter (fun x => s.core.constructs x.1) =
        (standing s.effects).reverse ∧
      (∀ d mem, s.core.constructs d = true → s.effects.count (.constructed d mem) =
        s.effects.count (.destroyed d mem) +
          if s.core.singletons.find d = some mem then 1 else 0) ∧
      (s.core.started = false → s.core.singletons.entries = []) := by
  have hledger := (conserved_reachable hs).ledger
  refine ⟨hledger.standing, ?_, hledger.balance, fun hnot => ?_⟩
  · rw [Registry.sweptSingletons_eq, List.filter_reverse, hledger.standing]
  · rw [SingletonStore.entries, hledger.unstarted hnot, List.filterMap_nil]

/-- The second service throws while it is constructed, and the first one is destroyed. -/
theorem singletons_conserved_rollback : ∃ s, machine.run initial
    [.call discoverServices, .start, .returns, .returns, .constructed 7, .returns, .returns,
      .returns, .throws] = some s ∧
    s.effects.count (.constructed 0 7) = 1 ∧ s.effects.count (.destroyed 0 7) = 1 ∧
      s.core.singletons.entries = [] := by
  obtain ⟨s, hrun, hconstructs, hcount, hnot⟩ : ∃ s, machine.run initial
      [.call discoverServices, .start, .returns, .returns, .constructed 7, .returns, .returns,
        .returns, .throws] = some s ∧ s.core.constructs 0 = true ∧
      s.effects.count (.constructed 0 7) = 1 ∧ s.core.started = false :=
    ⟨_, rfl, rfl, rfl, rfl⟩
  have hs : machine.ReachableBy Guard s :=
    .run (.init ⟨_, 0, rfl⟩) (by decide) hrun
  obtain ⟨-, -, hbalance, hempty⟩ := singletons_conserved s hs
  have hfind : s.core.singletons.find 0 = none := by
    have hwf := (conserved_reachable hs).ledger.wf
    rw [hwf.find_eq]
    refine hwf.instances_eq_none fun hmem => ?_
    rw [(conserved_reachable hs).ledger.unstarted hnot] at hmem
    exact List.not_mem_nil hmem
  have h := hbalance 0 7 hconstructs
  rw [hcount, hfind] at h
  exact ⟨s, hrun, hcount, by simpa using h.symm, hempty hnot⟩

end Startup

end Ctorium
