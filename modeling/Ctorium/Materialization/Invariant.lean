import Ctorium.Materialization.Effect

/-!
# The invariant of materialization

What every reachable state of the machine satisfies:

* per thread (`ThreadInv`): the `materializationStack` is read off the resolves
  in progress, which are properly nested in user code; the thread owns exactly
  the entries that its resolves have claimed; its wait slot is active exactly
  while it is blocked;
* on the shared state (`SharedInv`): one entry per key, none for a stored key,
  one store per key, and every resolve that has ended returned the stored
  instance and left the stack as it found it.

Each effect preserves both, so every step does (`step_inv`), and every reachable
state has them (`reachable_inv`).
-/

namespace Ctorium.Materialization

open Function Relation

/-! ## Resolves in progress -/

/-- The stack entry that a resolve in progress has pushed. -/
def Frame.pushed : Frame → Option DescriptorId
  | ⟨.materialize k p, _⟩ => if p.owning then some k.descId else none
  | ⟨.guarded d, _⟩ => some d

/-- The stack that the resolves in progress have built. -/
def stackOf (fs : List Frame) : List DescriptorId := fs.filterMap Frame.pushed

/-- The resolve in progress owns the key. -/
def Frame.Owns (f : Frame) (k : MaterializationKey) : Prop :=
  ∃ p, f.call = .materialize k p ∧ p.owning = true

/-- The resolve in progress knows what its phase says. -/
def Frame.Ok (D : Descriptors) (s : State) (t : ThreadToken) (f : Frame) : Prop :=
  ∀ k p, f.call = .materialize k p → D.Valid k ∧ p.Knows D s t k

/-- Each resolve was called from user code of the one below, and recorded the stack there. -/
def Nested : List Frame → Prop
  | [] => True
  | f :: rest => f.entryStack = stackOf rest ∧ userCode rest = true ∧ Nested rest

/-- The innermost resolve is blocked on the key. -/
def BlockedOn (fs : List Frame) (k : MaterializationKey) : Prop :=
  ∃ n e rest, fs = ⟨.materialize k (.waiting n), e⟩ :: rest

/-- The thread has an active wait edge on the key. -/
def State.WaitsOn (s : State) (t : ThreadToken) (k : MaterializationKey) : Prop :=
  (s.waitingByThread t).active = true ∧ (s.waitingByThread t).key = k

@[simp] theorem stackOf_cons (f : Frame) (rest : List Frame) :
    stackOf (f :: rest) = f.pushed.toList ++ stackOf rest := by
  unfold stackOf
  cases h : f.pushed with
  | none => simp [h]
  | some d => simp [h]

@[simp] theorem owns_materialize {k k' : MaterializationKey} {p : Phase} {e : List DescriptorId} :
    Frame.Owns ⟨.materialize k p, e⟩ k' ↔ k = k' ∧ p.owning = true := by
  constructor
  · rintro ⟨p', h, hp⟩
    cases h
    exact ⟨rfl, hp⟩
  · rintro ⟨rfl, hp⟩
    exact ⟨p, rfl, hp⟩

@[simp] theorem not_owns_guarded {d : DescriptorId} {k : MaterializationKey}
    {e : List DescriptorId} : ¬ Frame.Owns ⟨.guarded d, e⟩ k := by
  rintro ⟨p, h, _⟩
  cases h

theorem blockedOn_materialize {k k' : MaterializationKey} {p : Phase} {e : List DescriptorId}
    {rest : List Frame} :
    BlockedOn (⟨.materialize k p, e⟩ :: rest) k' ↔ k = k' ∧ p.blocked = true := by
  constructor
  · rintro ⟨n, e', rest', h⟩
    cases h
    exact ⟨rfl, rfl⟩
  · rintro ⟨rfl, hp⟩
    cases p with
    | waiting n => exact ⟨n, e, rest, rfl⟩
    | _ => simp [Phase.blocked] at hp

/-- User code is never blocked. -/
theorem not_blockedOn_of_userCode {fs : List Frame} (h : userCode fs = true)
    (k : MaterializationKey) : ¬ BlockedOn fs k := by
  rintro ⟨n, e, rest, rfl⟩
  simp [userCode] at h

/-- The descriptor of a key that is owned is on the stack. -/
theorem Frame.Owns.mem_stackOf {f : Frame} {k : MaterializationKey} {fs : List Frame}
    (h : f.Owns k) (hf : f ∈ fs) : k.descId ∈ stackOf fs := by
  obtain ⟨p, hcall, hp⟩ := h
  refine List.mem_filterMap.mpr ⟨f, hf, ?_⟩
  obtain ⟨call, e⟩ := f
  obtain rfl : call = .materialize k p := hcall
  simp [pushed, hp]

/-! ## The invariant -/

/-- The invariant of one thread. -/
structure ThreadInv (D : Descriptors) (s : State) (t : ThreadToken) : Prop where
  token : (s.threads t).frames ≠ [] → t ≠ kNoMaterializationThreadToken
  stack : (s.threads t).materializationStack = stackOf (s.threads t).frames
  nodup : (s.threads t).materializationStack.Nodup
  nested : Nested (s.threads t).frames
  ok : ∀ f ∈ (s.threads t).frames, f.Ok D s t
  owner : ∀ k, (⟨k, t⟩ : MaterializingEntry) ∈ s.materializing ↔
    ∃ f ∈ (s.threads t).frames, f.Owns k
  wait : ∀ k, s.WaitsOn t k ↔ BlockedOn (s.threads t).frames k

/-- The invariant of the shared state and of the histories. -/
structure SharedInv (D : Descriptors) (s : State) : Prop where
  keys : (s.materializing.map (·.key)).Nodup
  unstored : ∀ m ∈ s.materializing, s.findInstance D m.key = none
  once : (s.stored.map (·.1)).Nodup
  stored : ∀ p ∈ s.stored, s.findInstance D p.1 = some p.2
  returned : ∀ o ∈ s.outcomes, ∀ k a, o.key = some k → o.result = .ok a →
    s.findInstance D k = some a
  balanced : ∀ o ∈ s.outcomes, o.stackAfter = o.stackBefore

/-- The invariant of materialization. -/
structure Inv (D : Descriptors) (s : State) : Prop where
  shared : SharedInv D s
  thread : ∀ t, ThreadInv D s t

/-- Instances stay where they are stored, and the wait slots do not shrink. -/
structure Grows (D : Descriptors) (s s' : State) : Prop where
  find : ∀ k a, s.findInstance D k = some a → s'.findInstance D k = some a
  capacity : s.waitingByThreadCapacity ≤ s'.waitingByThreadCapacity

/-- What thread `u` relies on when another thread moves: the shared state grows,
    and its entries stay its own. -/
structure Keeps (D : Descriptors) (u : ThreadToken) (s s' : State) : Prop
    extends Grows D s s' where
  entries : ∀ k, (⟨k, u⟩ : MaterializingEntry) ∈ s'.materializing ↔
    (⟨k, u⟩ : MaterializingEntry) ∈ s.materializing

section Preservation

variable {D : Descriptors} {s s' : State} {t u : ThreadToken} {k : MaterializationKey}

theorem Keeps.refl_of (hfind : s'.findInstance D = s.findInstance D)
    (hmat : s'.materializing = s.materializing)
    (hcap : s.waitingByThreadCapacity ≤ s'.waitingByThreadCapacity) : Keeps D u s s' :=
  ⟨⟨fun k a h => by rw [hfind, h], hcap⟩, fun k => by rw [hmat]⟩

theorem Phase.Seen.mono {p : Phase} (h : p.Seen D s t k) (hk : Grows D s s') :
    p.Seen D s' t k := by
  cases p with
  | claim | waiting n => exact lt_of_lt_of_le h hk.capacity
  | refind =>
    obtain ⟨a, ha⟩ := Option.isSome_iff_exists.mp h
    exact Option.isSome_iff_exists.mpr ⟨a, hk.find k a ha⟩
  | notify result =>
    cases result with
    | none => trivial
    | some a => exact hk.find k a h
  | lifecycle a => exact hk.find k a h
  | find | ensureSlot | construct | store _ | fail => trivial

theorem Phase.Knows.mono {p : Phase} (h : p.Knows D s t k) (hk : Grows D s s') :
    p.Knows D s' t k :=
  ⟨h.1, h.2.mono hk⟩

theorem Frame.Ok.mono {f : Frame} (h : f.Ok D s t) (hk : Grows D s s') : f.Ok D s' t :=
  fun k p hc => ⟨(h k p hc).1, (h k p hc).2.mono hk⟩

/-- A thread that does not move keeps its invariant. -/
theorem ThreadInv.frame (h : ThreadInv D s u) (hth : s'.threads u = s.threads u)
    (hk : Keeps D u s s') (hw : s'.waitingByThread u = s.waitingByThread u) :
    ThreadInv D s' u where
  token := by rw [hth]; exact h.token
  stack := by rw [hth]; exact h.stack
  nodup := by rw [hth]; exact h.nodup
  nested := by rw [hth]; exact h.nested
  ok := by rw [hth]; exact fun f hf => (h.ok f hf).mono hk.toGrows
  owner k := by rw [hth, hk.entries]; exact h.owner k
  wait k := by
    rw [hth, State.WaitsOn, hw]
    exact h.wait k

/-- The innermost resolve moves on without changing what it has pushed and owns. -/
theorem ThreadInv.replaceTop {f : Frame} {rest : List Frame} (h : ThreadInv D s t) (f' : Frame)
    (hf : (s.threads t).frames = f :: rest)
    (hth : s'.threads t = { s.threads t with frames := f' :: rest }) (hk : Keeps D t s s')
    (hpush : f'.pushed = f.pushed) (hentry : f'.entryStack = f.entryStack)
    (howns : ∀ k, f'.Owns k ↔ f.Owns k) (hok : f'.Ok D s' t)
    (hwait : ∀ k, s'.WaitsOn t k ↔ BlockedOn (f' :: rest) k) : ThreadInv D s' t where
  token _ := h.token (by rw [hf]; exact List.cons_ne_nil _ _)
  stack := by rw [hth, h.stack, hf]; simp [hpush]
  nodup := by rw [hth]; exact h.nodup
  nested := by
    have hn := h.nested
    rw [hf] at hn
    rw [hth]
    exact ⟨hentry.trans hn.1, hn.2⟩
  ok := by
    rw [hth]
    intro g hg
    rcases List.mem_cons.mp hg with rfl | hg
    · exact hok
    · exact (h.ok g (by rw [hf]; exact List.mem_cons_of_mem _ hg)).mono hk.toGrows
  owner k := by
    rw [hk.entries, h.owner k, hf, hth]
    simp [howns]
  wait k := by rw [hth]; exact hwait k

/-- User code opens a resolve. -/
theorem ThreadInv.push (h : ThreadInv D s t) (f : Frame)
    (ht : t ≠ kNoMaterializationThreadToken) (hu : userCode (s.threads t).frames = true)
    (hth : s'.threads t = ⟨f.pushed.toList ++ (s.threads t).materializationStack,
      f :: (s.threads t).frames⟩)
    (hk : Keeps D t s s') (hw : s'.waitingByThread t = s.waitingByThread t)
    (hentry : f.entryStack = (s.threads t).materializationStack)
    (hnodup : ∀ d, f.pushed = some d → d ∉ (s.threads t).materializationStack)
    (howns : ∀ k, ¬ f.Owns k) (hok : f.Ok D s' t)
    (hblock : ∀ k, ¬ BlockedOn (f :: (s.threads t).frames) k) : ThreadInv D s' t where
  token _ := ht
  -- The new frame is user code of its caller, so it enters with the stack that the caller has.
  stack := by rw [hth, h.stack]; simp
  nodup := by
    rw [hth]
    cases hp : f.pushed with
    | none => simpa using h.nodup
    | some d => simpa using ⟨hnodup d hp, h.nodup⟩
  nested := by rw [hth]; exact ⟨hentry.trans h.stack, hu, h.nested⟩
  ok := by
    rw [hth]
    intro g hg
    rcases List.mem_cons.mp hg with rfl | hg
    · exact hok
    · exact (h.ok g hg).mono hk.toGrows
  owner k := by rw [hk.entries, h.owner k, hth]; simp [howns]
  wait k := by
    rw [hth, State.WaitsOn, hw]
    -- The thread was in user code, so it waited for nobody.
    refine ⟨fun hwait => ?_, fun hb => absurd hb (hblock k)⟩
    exact absurd ((h.wait k).mp hwait) (not_blockedOn_of_userCode hu k)

/-- A resolve that owns nothing ends. -/
theorem ThreadInv.pop {f : Frame} {rest : List Frame} (h : ThreadInv D s t)
    (hf : (s.threads t).frames = f :: rest)
    (hth : s'.threads t = ⟨stackOf rest, rest⟩)
    (hk : Keeps D t s s') (hw : s'.waitingByThread t = s.waitingByThread t)
    (howns : ∀ k, ¬ f.Owns k) (hblock : ∀ k, ¬ BlockedOn (f :: rest) k) : ThreadInv D s' t where
  -- What is below the frame that ends was there when the frame was entered.
  token _ := h.token (by rw [hf]; exact List.cons_ne_nil _ _)
  stack := by rw [hth]
  nodup := by
    have hn := h.nodup
    rw [h.stack, hf, stackOf_cons] at hn
    rw [hth]
    exact hn.of_append_right
  nested := by
    have hn := h.nested
    rw [hf] at hn
    rw [hth]
    exact hn.2.2
  ok := by
    rw [hth]
    exact fun g hg => (h.ok g (by rw [hf]; exact List.mem_cons_of_mem _ hg)).mono hk.toGrows
  owner k := by rw [hk.entries, h.owner k, hf, hth]; simp [howns]
  wait k := by
    have hn := h.nested
    rw [hf] at hn
    rw [hth, State.WaitsOn, hw]
    refine ⟨fun hwait => ?_, fun hb => absurd hb (not_blockedOn_of_userCode hn.2.1 k)⟩
    exact absurd (hf ▸ (h.wait k).mp hwait) (hblock k)

end Preservation

/-! ## Stores and releases -/

section Stores

variable {D : Descriptors} {s : State} {k k' : MaterializationKey} {mem : Addr}

theorem findInstance_storeInstance_self :
    (s.storeInstance D k mem).findInstance D k = some mem := by
  obtain ⟨d, _ | sc⟩ := k <;> simp [State.storeInstance, State.findInstance]

/-- Distinct keys of materializations have distinct places in the stores. -/
theorem findInstance_storeInstance_of_ne (hk : D.Valid k) (hk' : D.Valid k') (hne : k' ≠ k) :
    (s.storeInstance D k mem).findInstance D k' = s.findInstance D k' := by
  obtain ⟨d, _ | sc⟩ := k <;> obtain ⟨d', _ | sc'⟩ := k' <;>
    simp only [State.storeInstance, State.findInstance]
  · have hd : d' ≠ d := fun hd => hne (by rw [hd])
    rw [update_of_ne hd]
  · by_cases hsc : sc' = sc
    · subst hsc
      rw [update_self]
      refine update_of_ne (fun hslot => hne ?_) _ _
      have hd := D.sessionSlot_inj d' d hk'.2.1 hk.2.1 hk'.1 hk.1 hslot
      rw [hd]
    · rw [update_of_ne hsc]

/-- A store of a missing instance overwrites none. -/
theorem findInstance_storeInstance_of_some (hk : s.findInstance D k = none) {a : Addr}
    (hk' : s.findInstance D k' = some a) :
    (s.storeInstance D k mem).findInstance D k' = some a := by
  obtain ⟨d, _ | sc⟩ := k <;> obtain ⟨d', _ | sc'⟩ := k' <;>
    simp only [State.storeInstance, State.findInstance] at hk hk' ⊢
  · have hd : d' ≠ d := by rintro rfl; simp [hk] at hk'
    rw [update_of_ne hd, hk']
  · exact hk'
  · exact hk'
  · by_cases hsc : sc' = sc
    · subst hsc
      have hslot : D.sessionSlot d' ≠ D.sessionSlot d := fun h => by simp [h, hk] at hk'
      rw [update_self, update_of_ne hslot, hk']
    · rw [update_of_ne hsc, hk']

/-- A release, field by field. -/
theorem release_eq (D : Descriptors) (s : State) (t : ThreadToken) (k : MaterializationKey)
    (result : Option Addr) (e : List DescriptorId) (rest : List Frame) :
    release D s t k result e rest = { s with
      singletons := (s.storeResult D k result).singletons
      sessions := (s.storeResult D k result).sessions
      stored := s.stored ++ result.toList.map (k, ·)
      materializing := swapRemove (fun entry => entry.key = k) s.materializing
      threads := update s.threads t ⟨(s.threads t).materializationStack.tail,
        ⟨.materialize k (.notify result), e⟩ :: rest⟩ } := by
  cases result with
  | none => simp [release, State.storeResult, State.eraseEntry, State.setThread]
  | some mem => obtain ⟨d, _ | sc⟩ := k <;> rfl

theorem findInstance_release (D : Descriptors) (s : State) (t : ThreadToken)
    (k : MaterializationKey) (result : Option Addr) (e : List DescriptorId) (rest : List Frame) :
    (release D s t k result e rest).findInstance D = (s.storeResult D k result).findInstance D := by
  cases result <;> rfl

end Stores

/-! ## Preservation by the effects -/

section Effects

variable {D : Descriptors} {s s' : State} {t : ThreadToken} {k : MaterializationKey}
  {e : List DescriptorId} {rest : List Frame}

/-- The invariant after a step of thread `t`, from what the step does to `t` and to the rest. -/
theorem Inv.of_thread (h : Inv D s) (t : ThreadToken) (hshared : SharedInv D s')
    (ht : ThreadInv D s' t)
    (hth : ∀ u, u ≠ t → s'.threads u = s.threads u) (hk : ∀ u, u ≠ t → Keeps D u s s')
    (hw : ∀ u, u ≠ t → s'.waitingByThread u = s.waitingByThread u) : Inv D s' := by
  refine ⟨hshared, fun u => ?_⟩
  by_cases hu : u = t
  · exact hu ▸ ht
  · exact (h.thread u).frame (hth u hu) (hk u hu) (hw u hu)

theorem SharedInv.congr (h : SharedInv D s) (hfind : s'.findInstance D = s.findInstance D)
    (hmat : s'.materializing = s.materializing) (hstored : s'.stored = s.stored)
    (hout : s'.outcomes = s.outcomes) : SharedInv D s' where
  keys := by rw [hmat]; exact h.keys
  unstored := by rw [hmat, hfind]; exact h.unstored
  once := by rw [hstored]; exact h.once
  stored := by rw [hstored, hfind]; exact h.stored
  returned := by rw [hout, hfind]; exact h.returned
  balanced := by rw [hout]; exact h.balanced

/-- A resolve ends that returns the stored instance, if any, on the stack it was called on. -/
theorem SharedInv.log {o : Outcome} (h : SharedInv D s)
    (hr : ∀ k a, o.key = some k → o.result = .ok a → s.findInstance D k = some a)
    (hb : o.stackAfter = o.stackBefore) :
    SharedInv D { s with outcomes := s.outcomes ++ [o] } where
  keys := h.keys
  unstored := h.unstored
  once := h.once
  stored := h.stored
  returned o' ho' := by
    rcases List.mem_append.mp ho' with ho' | ho'
    · exact h.returned o' ho'
    · exact List.mem_singleton.mp ho' ▸ hr
  balanced o' ho' := by
    rcases List.mem_append.mp ho' with ho' | ho'
    · exact h.balanced o' ho'
    · exact List.mem_singleton.mp ho' ▸ hb

/-- The stack below the innermost resolve is the one that it was called on. -/
theorem ThreadInv.entryStack {f : Frame} (h : ThreadInv D s t)
    (hf : (s.threads t).frames = f :: rest) : f.entryStack = stackOf rest := by
  have hn := h.nested
  rw [hf] at hn
  exact hn.1

theorem inv_enter (h : Inv D s) (ht : t ≠ kNoMaterializationThreadToken)
    (hu : userCode (s.threads t).frames) (hk : D.Valid k) :
    Inv D (s.setFrames t
      (⟨.materialize k .find, (s.threads t).materializationStack⟩ :: (s.threads t).frames)) := by
  refine h.of_thread t (h.shared.congr rfl rfl rfl rfl) ?_ (fun u hu => by simp [hu])
    (fun u _ => .refl_of rfl rfl le_rfl) (fun u _ => rfl)
  refine (h.thread t).push ⟨.materialize k .find, (s.threads t).materializationStack⟩ ht hu
    (by simp [Frame.pushed, Phase.owning]) (.refl_of rfl rfl le_rfl) rfl rfl
    (by simp [Frame.pushed, Phase.owning]) (by simp [Phase.owning]) ?_
    (by simp [blockedOn_materialize, Phase.blocked])
  intro k' p hcall
  cases hcall
  exact ⟨hk, fun h => absurd rfl h, trivial⟩

theorem inv_enterGuard {d : DescriptorId} (h : Inv D s) (ht : t ≠ kNoMaterializationThreadToken)
    (hu : userCode (s.threads t).frames) (hd : d ∉ (s.threads t).materializationStack) :
    Inv D (s.setThread t ⟨d :: (s.threads t).materializationStack,
      ⟨.guarded d, (s.threads t).materializationStack⟩ :: (s.threads t).frames⟩) := by
  refine h.of_thread t (h.shared.congr rfl rfl rfl rfl) ?_ (fun u hu => by simp [hu])
    (fun u _ => .refl_of rfl rfl le_rfl) (fun u _ => rfl)
  refine (h.thread t).push ⟨.guarded d, (s.threads t).materializationStack⟩ ht hu
    (by simp [Frame.pushed]) (.refl_of rfl rfl le_rfl) rfl rfl (by simpa [Frame.pushed] using hd)
    (by simp) ?_ ?_
  · intro k' p hcall
    cases hcall
  · rintro k' ⟨n, e, rest, hb⟩
    cases hb

/-- The wait slot of a thread that is not blocked is inactive. -/
theorem ThreadInv.not_waitsOn {p : Phase} (h : ThreadInv D s t)
    (hf : (s.threads t).frames = ⟨.materialize k p, e⟩ :: rest) (hp : p.blocked = false)
    (k' : MaterializationKey) : ¬ s.WaitsOn t k' := by
  rw [h.wait, hf, blockedOn_materialize]
  simp [hp]

theorem inv_move {p p' : Phase} (h : Inv D s)
    (hf : (s.threads t).frames = ⟨.materialize k p, e⟩ :: rest) (hown : p'.owning = p.owning)
    (hp : p.blocked = false) (hp' : p'.blocked = false)
    (hknows : p.Knows D s t k → p'.Knows D s t k) :
    Inv D (s.setFrames t (⟨.materialize k p', e⟩ :: rest)) := by
  refine h.of_thread t (h.shared.congr rfl rfl rfl rfl) ?_ (fun u hu => by simp [hu])
    (fun u _ => .refl_of rfl rfl le_rfl) (fun u _ => rfl)
  have hk : Keeps D t s (s.setFrames t (⟨.materialize k p', e⟩ :: rest)) :=
    .refl_of rfl rfl le_rfl
  refine (h.thread t).replaceTop ⟨.materialize k p', e⟩ hf (by simp) hk
    (by simp [Frame.pushed, hown]) rfl
    (by simp [hown]) ?_ ?_
  · intro k' q hcall
    cases hcall
    have hok := (h.thread t).ok _ (by rw [hf]; exact List.mem_cons_self) k p rfl
    exact ⟨hok.1, (hknows hok.2).mono hk.toGrows⟩
  · intro k'
    rw [blockedOn_materialize]
    exact iff_of_false ((h.thread t).not_waitsOn hf hp k') (by simp [hp'])

theorem claim_owning : Phase.claim.owning = false := rfl

theorem inv_unwait {p : Phase} {w : MaterializationWait} (h : Inv D s)
    (hf : (s.threads t).frames = ⟨.materialize k p, e⟩ :: rest)
    (hp : p = .claim ∨ p.blocked = true) (hw : w.active = false) :
    Inv D ((s.setWait t w).setFrames t (⟨.materialize k .claim, e⟩ :: rest)) := by
  have hown : p.owning = false := by
    rcases hp with rfl | hp
    · rfl
    · cases p <;> first | rfl | cases hp
  have hknows : p.Knows D s t k → Phase.claim.Knows D s t k := by
    rcases hp with rfl | hp
    · exact id
    · cases p <;> first | exact fun h => ⟨fun _ => h.1 (by simp), h.2⟩ | cases hp
  refine h.of_thread t (h.shared.congr rfl rfl rfl rfl) ?_ (fun u hu => by simp [hu])
    (fun u _ => .refl_of rfl rfl le_rfl) (fun u hu => update_of_ne hu _ _)
  refine (h.thread t).replaceTop ⟨.materialize k .claim, e⟩ hf (by simp) (.refl_of rfl rfl le_rfl)
    (by simp [Frame.pushed, hown, claim_owning]) rfl (by simp [hown, claim_owning]) ?_ ?_
  · intro k' q hcall
    cases hcall
    have hok := (h.thread t).ok _ (by rw [hf]; exact List.mem_cons_self) k p rfl
    exact ⟨hok.1, (hknows hok.2).mono ⟨fun _ _ h => h, le_rfl⟩⟩
  · intro k'
    rw [blockedOn_materialize]
    simp [State.WaitsOn, State.setFrames, State.setThread, hw, Phase.blocked]

theorem inv_block (h : Inv D s)
    (hf : (s.threads t).frames = ⟨.materialize k .claim, e⟩ :: rest) :
    Inv D ((s.setWait t ⟨k, true⟩).setFrames t
      (⟨.materialize k (.waiting false), e⟩ :: rest)) := by
  refine h.of_thread t (h.shared.congr rfl rfl rfl rfl) ?_ (fun u hu => by simp [hu])
    (fun u _ => .refl_of rfl rfl le_rfl) (fun u hu => update_of_ne hu _ _)
  refine (h.thread t).replaceTop ⟨.materialize k (.waiting false), e⟩ hf (by simp)
    (.refl_of rfl rfl le_rfl)
    (by simp [Frame.pushed, Phase.owning]) rfl (by simp [Phase.owning]) ?_ ?_
  · intro k' q hcall
    cases hcall
    have hok := (h.thread t).ok _ (by rw [hf]; exact List.mem_cons_self) k .claim rfl
    exact ⟨hok.1, fun _ => hok.2.1 (by simp), hok.2.2⟩
  · intro k'
    rw [blockedOn_materialize]
    simp [State.WaitsOn, State.setFrames, State.setThread, Phase.blocked]

theorem inv_finish {p : Phase} {r : Except Failure Addr} (h : Inv D s)
    (hf : (s.threads t).frames = ⟨.materialize k p, e⟩ :: rest) (hown : p.owning = false)
    (hp : p.blocked = false)
    (hr : ∀ a, r = .ok a → p.Knows D s t k → s.findInstance D k = some a) :
    Inv D (s.finish t ⟨.materialize k p, e⟩ rest k r) := by
  have hstack : (s.threads t).materializationStack = stackOf rest := by
    rw [(h.thread t).stack, hf]
    simp [Frame.pushed, hown]
  have hok := (h.thread t).ok _ (by rw [hf]; exact List.mem_cons_self) k p rfl
  refine h.of_thread t (SharedInv.log (h.shared.congr rfl rfl rfl rfl) ?_ ?_) ?_
    (fun u hu => by simp [State.finish, hu]) (fun u _ => .refl_of rfl rfl le_rfl) (fun u _ => rfl)
  · rintro k' a hkey hres
    cases hkey
    exact hr a hres hok.2
  · exact hstack.trans ((h.thread t).entryStack hf).symm
  · exact (h.thread t).pop hf (by simp [State.finish, hstack]) (.refl_of rfl rfl le_rfl) rfl
      (by simp [hown]) (by simp [blockedOn_materialize, hp])

theorem inv_leaveGuard {d : DescriptorId} {r : Except Failure Addr} (h : Inv D s)
    (hf : (s.threads t).frames = ⟨.guarded d, e⟩ :: rest) :
    Inv D ((s.setThread t { s.threads t with
      materializationStack := (s.threads t).materializationStack.tail }).finish t
        ⟨.guarded d, e⟩ rest none r) := by
  have hstack : (s.threads t).materializationStack.tail = stackOf rest := by
    rw [(h.thread t).stack, hf]
    simp [Frame.pushed]
  refine h.of_thread t (SharedInv.log (h.shared.congr rfl rfl rfl rfl) (by simp) ?_) ?_
    (fun u hu => by simp [State.finish, hu]) (fun u _ => .refl_of rfl rfl le_rfl) (fun u _ => rfl)
  · simpa using hstack.trans ((h.thread t).entryStack hf).symm
  · refine (h.thread t).pop hf (by simp [State.finish, hstack]) (.refl_of rfl rfl le_rfl) rfl
      (by simp) ?_
    rintro k' ⟨n, e', rest', hb⟩
    cases hb

/-- A key has at most one owner. -/
theorem SharedInv.owner_unique {u v : ThreadToken} (h : SharedInv D s)
    (hu : (⟨k, u⟩ : MaterializingEntry) ∈ s.materializing)
    (hv : (⟨k, v⟩ : MaterializingEntry) ∈ s.materializing) : u = v := by
  have := List.inj_on_of_nodup_map h.keys hu hv rfl
  exact congrArg MaterializingEntry.threadToken this

/-- The key of an entry is one of a materialization. -/
theorem Inv.valid {m : MaterializingEntry} (h : Inv D s) (hm : m ∈ s.materializing) :
    D.Valid m.key := by
  obtain ⟨f, hf, p, hcall, _⟩ := ((h.thread m.threadToken).owner m.key).mp hm
  exact ((h.thread m.threadToken).ok f hf m.key p hcall).1

theorem inv_claimed (h : Inv D s)
    (hf : (s.threads t).frames = ⟨.materialize k .claim, e⟩ :: rest)
    (hfind : s.findInstance D k = none) (hown : s.ownerOf k = none)
    (hd : k.descId ∉ (s.threads t).materializationStack) :
    Inv D { s.setThread t ⟨k.descId :: (s.threads t).materializationStack,
        ⟨.materialize k .construct, e⟩ :: rest⟩ with
      materializing := s.materializing ++ [⟨k, t⟩] } := by
  have hnew := ownerOf_eq_none.mp hown
  have ht := h.thread t
  have hnest := ht.nested
  have hstack := ht.stack
  have hok := ht.ok
  have howner := ht.owner
  rw [hf] at hnest hstack hok howner
  have hk : ∀ u, u ≠ t → Keeps D u s { s.setThread t ⟨k.descId ::
      (s.threads t).materializationStack, ⟨.materialize k .construct, e⟩ :: rest⟩ with
      materializing := s.materializing ++ [⟨k, t⟩] } :=
    fun u hu => ⟨⟨fun _ _ h => h, le_rfl⟩, fun k' => by simp [hu]⟩
  refine h.of_thread t ⟨?_, ?_, h.shared.once, h.shared.stored, h.shared.returned,
    h.shared.balanced⟩ ⟨?_, ?_, ?_, ?_, ?_, ?_, ?_⟩ (fun u hu => by simp [hu]) hk (fun u _ => rfl)
  · -- The key had no entry.
    rw [List.map_append, List.nodup_append]
    refine ⟨h.shared.keys, by simp, ?_⟩
    simp only [List.map_cons, List.map_nil, List.mem_singleton, List.mem_map]
    rintro _ ⟨⟨k', u⟩, hm, rfl⟩ _ rfl rfl
    exact hnew u hm
  · intro m hm
    rcases List.mem_append.mp hm with hm | hm
    · exact h.shared.unstored m hm
    · obtain rfl := List.mem_singleton.mp hm
      exact hfind
  · exact fun _ => ht.token (by rw [hf]; exact List.cons_ne_nil _ _)
  · simp only [State.setThread_threads, update_self]
    rw [hstack]
    simp [Frame.pushed, Phase.owning]
  · simp only [State.setThread_threads, update_self]
    exact List.nodup_cons.mpr ⟨hd, ht.nodup⟩
  · simp only [State.setThread_threads, update_self]
    exact hnest
  · simp only [State.setThread_threads, update_self]
    intro g hg
    rcases List.mem_cons.mp hg with rfl | hg
    · intro k' p hcall
      cases hcall
      have hk := hok _ List.mem_cons_self k .claim rfl
      exact ⟨hk.1, fun _ => hk.2.1 (by simp), trivial⟩
    · exact (hok g (List.mem_cons_of_mem _ hg)).mono ⟨fun _ _ h => h, le_rfl⟩
  · intro k'
    have := howner k'
    simp only [List.mem_cons, exists_eq_or_imp, owns_materialize, claim_owning] at this
    simp only [State.setThread_threads, update_self, List.mem_append, List.mem_cons,
      exists_eq_or_imp, owns_materialize, this]
    simp [Phase.owning, eq_comm, or_comm]
  · intro k'
    simp only [State.setThread_threads, update_self]
    rw [blockedOn_materialize]
    exact iff_of_false (ht.not_waitsOn hf rfl k') (by simp [Phase.blocked])

/-- The phases before a release own the key. -/
theorem owning_of_result {result : Option Addr} :
    Phase.owning ((result.map .store).getD .fail) = true := by
  cases result <;> rfl

/-- The instances after a release: those before, and the result of the construction. -/
theorem findInstance_storeResult (hk : s.findInstance D k = none) (result : Option Addr) :
    (∀ k' a, s.findInstance D k' = some a →
      (s.storeResult D k result).findInstance D k' = some a) ∧
    (∀ k', D.Valid k → D.Valid k' → k' ≠ k →
      (s.storeResult D k result).findInstance D k' = s.findInstance D k') ∧
    (s.storeResult D k result).findInstance D k = result := by
  cases result with
  | none => exact ⟨fun _ _ h => h, fun _ _ _ _ => rfl, hk⟩
  | some mem =>
    exact ⟨fun _ _ h => findInstance_storeInstance_of_some hk h,
      fun _ hv hv' hne => findInstance_storeInstance_of_ne hv hv' hne,
      findInstance_storeInstance_self⟩

theorem inv_release {p : Phase} {result : Option Addr} (h : Inv D s)
    (hf : (s.threads t).frames = ⟨.materialize k p, e⟩ :: rest)
    (hp : p = (result.map .store).getD .fail) : Inv D (release D s t k result e rest) := by
  have hown : p.owning = true := hp ▸ owning_of_result
  have ht := h.thread t
  have hnest := ht.nested
  have hstack := ht.stack
  have hok := ht.ok
  have howner := ht.owner
  rw [hf] at hnest hstack hok howner
  rw [stackOf_cons, show Frame.pushed ⟨.materialize k p, e⟩ = some k.descId by
    simp [Frame.pushed, hown]] at hstack
  have hentry : (⟨k, t⟩ : MaterializingEntry) ∈ s.materializing :=
    (howner k).mpr ⟨_, List.mem_cons_self, owns_materialize.mpr ⟨rfl, hown⟩⟩
  have hnone : s.findInstance D k = none := h.shared.unstored _ hentry
  obtain ⟨hmono, hne, hself⟩ := findInstance_storeResult hnone result
  have hnodup := ht.nodup
  rw [hstack] at hnodup
  -- The other entries of the thread belong to the resolves below.
  have hrest : ∀ k', k' ≠ k ∧ (∃ f ∈ (⟨.materialize k p, e⟩ : Frame) :: rest, f.Owns k') ↔
      ∃ f ∈ rest, f.Owns k' := by
    intro k'
    constructor
    · rintro ⟨hk', g, hg, hgo⟩
      rcases List.mem_cons.mp hg with rfl | hg
      · exact absurd (owns_materialize.mp hgo).1.symm hk'
      · exact ⟨g, hg, hgo⟩
    · rintro ⟨g, hg, hgo⟩
      refine ⟨?_, g, List.mem_cons_of_mem _ hg, hgo⟩
      rintro rfl
      exact (List.nodup_cons.mp hnodup).1 (hgo.mem_stackOf hg)
  have hmem : ∀ m, m ∈ (release D s t k result e rest).materializing ↔
      m ∈ s.materializing ∧ m.key ≠ k := by
    intro m
    rw [release_eq]
    exact mem_swapRemove_key h.shared.keys
  have hthread : (release D s t k result e rest).threads t =
      ⟨stackOf rest, ⟨.materialize k (.notify result), e⟩ :: rest⟩ := by
    rw [release_eq]
    simp [hstack]
  have hfindEq := findInstance_release D s t k result e rest
  have hgrows : Grows D s (release D s t k result e rest) :=
    ⟨fun k' a ha => by rw [hfindEq]; exact hmono k' a ha, by rw [release_eq]⟩
  have hk : ∀ u, u ≠ t → Keeps D u s (release D s t k result e rest) := by
    intro u hu
    refine ⟨hgrows, fun k' => ?_⟩
    rw [hmem]
    refine ⟨And.left, fun hm => ⟨hm, ?_⟩⟩
    rintro rfl
    exact hu (h.shared.owner_unique hm hentry)
  refine h.of_thread t ⟨?_, ?_, ?_, ?_, ?_, ?_⟩ ⟨?_, ?_, ?_, ?_, ?_, ?_, ?_⟩
    (fun u hu => by rw [release_eq]; simp [hu]) hk (fun u _ => by rw [release_eq])
  · rw [release_eq]
    exact nodup_swapRemove_key _ h.shared.keys
  · intro m hm
    obtain ⟨hm, hmk⟩ := (hmem m).mp hm
    rw [hfindEq, hne m.key (h.valid hentry) (h.valid hm) hmk]
    exact h.shared.unstored m hm
  · -- The key has not been stored before, as its instance was missing.
    rw [release_eq]
    cases result with
    | none => simpa using h.shared.once
    | some mem =>
      simp only [Option.toList_some, List.map_append, List.map_cons, List.map_nil]
      refine List.nodup_append.mpr ⟨h.shared.once, by simp, ?_⟩
      simp only [List.mem_map, List.mem_singleton]
      rintro _ ⟨q, hq, rfl⟩ _ rfl rfl
      rw [h.shared.stored q hq] at hnone
      cases hnone
  · intro q hq
    rw [hfindEq]
    rw [release_eq] at hq
    rcases List.mem_append.mp hq with hq | hq
    · exact hmono _ _ (h.shared.stored q hq)
    · obtain ⟨a, ha, rfl⟩ := List.mem_map.mp hq
      rw [hself]
      simpa using ha
  · intro o ho k' a hkey hres
    rw [hfindEq]
    rw [release_eq] at ho
    exact hmono k' a (h.shared.returned o ho k' a hkey hres)
  · rw [release_eq]
    exact h.shared.balanced
  · exact fun _ => ht.token (by rw [hf]; exact List.cons_ne_nil _ _)
  · rw [hthread]
    simp [Frame.pushed, Phase.owning]
  · rw [hthread]
    exact (List.nodup_cons.mp hnodup).2
  · rw [hthread]
    exact hnest
  · rw [hthread]
    intro g hg
    rcases List.mem_cons.mp hg with rfl | hg
    · intro k' q hcall
      cases hcall
      have hk := hok _ List.mem_cons_self k p rfl
      refine ⟨hk.1, fun _ => hk.2.1 (by rintro rfl; simp [Phase.owning] at hown), ?_⟩
      cases result with
      | none => trivial
      | some mem => exact (congrFun hfindEq k).trans hself
    · exact (hok g (List.mem_cons_of_mem _ hg)).mono hgrows
  · intro k'
    rw [hmem, hthread, howner k', and_comm, hrest]
    simp [Phase.owning]
  · intro k'
    rw [hthread, blockedOn_materialize]
    refine iff_of_false ?_ (by simp [Phase.blocked])
    rw [State.WaitsOn, release_eq]
    exact ht.not_waitsOn hf (by rw [hp]; cases result <;> rfl) k'

theorem inv_notifyAll (h : Inv D s) : Inv D s.notifyAll := by
  refine ⟨h.shared.congr rfl rfl rfl rfl, fun u => ?_⟩
  have hk : Keeps D u s s.notifyAll := .refl_of rfl rfl le_rfl
  by_cases hb : ∃ k n e rest, (s.threads u).frames = ⟨.materialize k (.waiting n), e⟩ :: rest
  · obtain ⟨k, n, e, rest, hf⟩ := hb
    refine (h.thread u).replaceTop ⟨.materialize k (.waiting true), e⟩ hf
      (by simp [State.notifyAll, hf]) hk rfl rfl (by simp [Phase.owning]) ?_ ?_
    · intro k' p hcall
      cases hcall
      have hok := (h.thread u).ok _ (by rw [hf]; exact List.mem_cons_self) k (.waiting n) rfl
      exact ⟨hok.1, fun _ => hok.2.1 (by simp), hok.2.2⟩
    · intro k'
      have hw := (h.thread u).wait k'
      rw [hf, blockedOn_materialize] at hw
      rw [blockedOn_materialize]
      exact hw
  · refine (h.thread u).frame ?_ hk rfl
    unfold State.notifyAll
    dsimp only
    split
    · next hf => exact absurd ⟨_, _, _, _, hf⟩ hb
    · rfl

/-- Every effect preserves the invariant. -/
theorem effect_inv (h : Inv D s) (he : Effect D t s s') : Inv D s' := by
  have same (s' : State) (hth : s'.threads = s.threads)
      (hw : s'.waitingByThread = s.waitingByThread) (hshared : SharedInv D s')
      (hk : ∀ u, Keeps D u s s') : Inv D s' :=
    ⟨hshared, fun u => (h.thread u).frame (by rw [hth]) (hk u) (by rw [hw])⟩
  cases he with
  | refuse err =>
    exact same _ rfl rfl (h.shared.log (by simp) rfl) fun u => .refl_of rfl rfl le_rfl
  | enter k ht hu hk => exact inv_enter h ht hu hk
  | enterGuard d ht hu hd => exact inv_enterGuard h ht hu hd
  | move p' hf hown hp hp' _ hknows => exact inv_move h hf hown hp hp' hknows
  | grow c hc =>
    exact same _ rfl rfl (h.shared.congr rfl rfl rfl rfl) fun u => .refl_of rfl rfl hc
  | unwait w hf hp hw => exact inv_unwait h hf hp hw
  | claimed hf hfind hown hd => exact inv_claimed h hf hfind hown hd
  | block hf => exact inv_block h hf
  | release result hf hp => exact inv_release h hf hp
  | notifyAll => exact inv_notifyAll h
  | finish r hf hown hp _ hr => exact inv_finish h hf hown hp hr
  | leaveGuard r hf => exact inv_leaveGuard h hf

end Effects

/-! ## Every reachable state -/

section Reachable

variable {D : Descriptors} {s s' : State}

theorem effects_inv {t : ThreadToken} (h : Inv D s) (he : ReflTransGen (Effect D t) s s') :
    Inv D s' := by
  induction he with
  | refl => exact h
  | tail _ he ih => exact effect_inv ih he

theorem step_inv {a : Action} (h : Inv D s) (hs : step D s a = some s') : Inv D s' :=
  effects_inv h (step_effects hs)

theorem init_inv (h : Init s) : Inv D s := by
  obtain ⟨hmat, hwait, hth, hstored, hout⟩ := h
  refine ⟨⟨by simp [hmat], by simp [hmat], by simp [hstored], by simp [hstored], by simp [hout],
    by simp [hout]⟩, fun t => ?_⟩
  refine ⟨by simp [hth], by simp [hth, stackOf], by simp [hth], by simp [hth, Nested],
    by simp [hth], by simp [hmat, hth], fun k => ?_⟩
  rw [hth t]
  exact iff_of_false (by simp [State.WaitsOn, hwait]) (not_blockedOn_of_userCode rfl k)

theorem reachable_inv (h : (machine D).Reachable s) : Inv D s :=
  h.invariant (fun _ => init_inv) fun _ _ _ => step_inv

end Reachable

end Ctorium.Materialization
