import Ctorium.Materialization

/-!
# What a step of a resolve can do

Every step of the materialization machine is a sequence of a few *effects* of the
moving thread on the state (`step_effects`). An effect states the guard that the
code has checked when it happens, so that an invariant is proved once per effect
and never by unfolding the step function.
-/

namespace Ctorium.Materialization

open Function Relation

/-! ## Phases and frames -/

/-- The phases in which a resolve owns its key. -/
def Phase.owning : Phase → Bool
  | .construct | .store _ | .fail => true
  | _ => false

/-- The phases in which a thread is blocked. -/
def Phase.blocked : Phase → Bool
  | .waiting _ => true
  | _ => false

/-- The phase in which a resolve has released its key and not yet notified the waiters. -/
def Phase.notifying : Phase → Bool
  | .notify _ => true
  | _ => false

/-- The innermost resolve is blocked and no notification has arrived. -/
def Asleep (fs : List Frame) : Prop :=
  ∃ k e rest, fs = ⟨.materialize k (.waiting false), e⟩ :: rest

/-- The keys of materializations: a singleton primary, or a session primary in a scope. -/
def Descriptors.Valid (D : Descriptors) (k : MaterializationKey) : Prop :=
  D.primaryOf k.descId = k.descId ∧
    D.lifetime k.descId = (match k.scope with | none => .singleton | some _ => .session) ∧
    ∀ sc, k.scope = some sc → D.scopeState sc ≠ .stopped

/-- A session bean is only constructed in a running scope and if it is not a bound one. -/
def Descriptors.Constructible (D : Descriptors) (k : MaterializationKey) : Prop :=
  ∀ sc, k.scope = some sc → D.scopeState sc ≠ .stopping ∧ D.origin k.descId ≠ .runtimeBinding

/-- What a resolve of `k` on thread `t` knows about the shared state in a phase. -/
def Phase.Seen (D : Descriptors) (s : State) (t : ThreadToken) (k : MaterializationKey) :
    Phase → Prop
  | .claim | .waiting _ => t < s.waitingByThreadCapacity
  | .refind => (s.findInstance D k).isSome
  | .notify (some a) | .lifecycle a => s.findInstance D k = some a
  | _ => True

/-- What a resolve of `k` knows in a phase; all phases but the first have passed the
    checks that follow the lookup. -/
def Phase.Knows (D : Descriptors) (s : State) (t : ThreadToken) (k : MaterializationKey)
    (p : Phase) : Prop :=
  (p ≠ .find → D.Constructible k) ∧ p.Seen D s t k

/-! ## Projections of the accesses -/

namespace State

variable (D : Descriptors) (s : State) (t : ThreadToken)

@[simp] theorem setThread_threads (th : Thread) :
    (s.setThread t th).threads = update s.threads t th := rfl

@[simp] theorem setFrames_threads (fs : List Frame) :
    (s.setFrames t fs).threads = update s.threads t { s.threads t with frames := fs } := rfl

theorem setFrames_eq_self {fs : List Frame} (h : (s.threads t).frames = fs) :
    s.setFrames t fs = s := by
  rw [setFrames, setThread, ← h, update_eq_self]

@[simp] theorem setWait_threads (w : MaterializationWait) :
    (s.setWait t w).threads = s.threads := rfl

@[simp] theorem setWait_waitingByThread (w : MaterializationWait) :
    (s.setWait t w).waitingByThread = update s.waitingByThread t w := rfl

@[simp] theorem findInstance_setThread (th : Thread) :
    (s.setThread t th).findInstance D = s.findInstance D := rfl

@[simp] theorem findInstance_setFrames (fs : List Frame) :
    (s.setFrames t fs).findInstance D = s.findInstance D := rfl

@[simp] theorem findInstance_setWait (w : MaterializationWait) :
    (s.setWait t w).findInstance D = s.findInstance D := rfl

@[simp] theorem findInstance_eraseEntry (k : MaterializationKey) :
    (s.eraseEntry k).findInstance D = s.findInstance D := rfl

@[simp] theorem findInstance_notifyAll : s.notifyAll.findInstance D = s.findInstance D := rfl

@[simp] theorem findInstance_finish (f : Frame) (rest : List Frame)
    (key : Option MaterializationKey) (r : Except Failure Addr) :
    (s.finish t f rest key r).findInstance D = s.findInstance D := rfl

theorem le_chunks (n : ℕ) : n ≤
    (n + kMaterializationWaitChunkSize - 1) / kMaterializationWaitChunkSize *
      kMaterializationWaitChunkSize := by
  unfold kMaterializationWaitChunkSize
  omega

/-- A new capacity is never smaller, and covers the thread. -/
theorem ensureMaterializationWaitSlot_capacity :
    s.waitingByThreadCapacity ≤ (s.ensureMaterializationWaitSlot t).waitingByThreadCapacity ∧
      t < (s.ensureMaterializationWaitSlot t).waitingByThreadCapacity := by
  unfold ensureMaterializationWaitSlot
  by_cases h : t + 1 ≤ s.waitingByThreadCapacity
  · simp only [h, if_true]
    exact ⟨le_rfl, h⟩
  · simp only [h, if_false]
    exact ⟨(Nat.le_of_not_le h).trans (le_chunks (t + 1)), le_chunks (t + 1)⟩

theorem ensureMaterializationWaitSlot_eq :
    s.ensureMaterializationWaitSlot t = { s with
      waitingByThreadCapacity := (s.ensureMaterializationWaitSlot t).waitingByThreadCapacity } := by
  unfold ensureMaterializationWaitSlot
  dsimp only
  split <;> rfl

/-- A notification leaves a thread alone that is not blocked. -/
theorem notifyAll_threads_of_not_blocked {k : MaterializationKey} {p : Phase}
    {e : List DescriptorId} {rest : List Frame}
    (hf : (s.threads t).frames = ⟨.materialize k p, e⟩ :: rest) (hp : p.blocked = false) :
    s.notifyAll.threads t = s.threads t := by
  unfold notifyAll
  dsimp only
  rw [hf]
  cases p <;> first | (simp [Phase.blocked] at hp; done) | (dsimp only; rw [← hf])

theorem notifyAll_not_asleep (u : ThreadToken) : ¬ Asleep (s.notifyAll.threads u).frames := by
  rintro ⟨k, e, rest, h⟩
  unfold notifyAll at h
  dsimp only at h
  split at h
  · cases h
  · next hne => exact hne _ _ _ _ h

end State

/-- An owner that the lookup finds has an entry, and no entry is missed. -/
theorem ownerOf_eq_none {s : State} {k : MaterializationKey} :
    s.ownerOf k = none ↔ ∀ u, (⟨k, u⟩ : MaterializingEntry) ∉ s.materializing := by
  unfold State.ownerOf
  simp only [Option.map_eq_none_iff, List.find?_eq_none, decide_eq_true_eq]
  constructor
  · exact fun h u hu => h _ hu rfl
  · rintro h ⟨k', u⟩ hu rfl
    exact h u hu

theorem mem_of_ownerOf {s : State} {k : MaterializationKey} {u : ThreadToken}
    (h : s.ownerOf k = some u) : (⟨k, u⟩ : MaterializingEntry) ∈ s.materializing := by
  unfold State.ownerOf at h
  obtain ⟨⟨k', u'⟩, he, hu⟩ := Option.map_eq_some_iff.mp h
  obtain rfl : u' = u := hu
  obtain rfl : k' = k := by simpa using List.find?_some he
  exact List.mem_of_find?_eq_some he

/-! ## Effects -/

/-- The effects of the moving thread `t` on the state. -/
inductive Effect (D : Descriptors) (t : ThreadToken) (s : State) : State → Prop
  /-- A resolve throws before it opens. -/
  | refuse (err : Failure) :
      Effect D t s { s with outcomes := s.outcomes ++ [⟨t, none, .error err,
        (s.threads t).materializationStack, (s.threads t).materializationStack⟩] }
  /-- User code opens a resolve of a key. -/
  | enter (k : MaterializationKey) (ht : t ≠ kNoMaterializationThreadToken)
      (hu : userCode (s.threads t).frames) (hk : D.Valid k) :
      Effect D t s (s.setFrames t
        (⟨.materialize k .find, (s.threads t).materializationStack⟩ :: (s.threads t).frames))
  /-- User code opens a resolve that pushes its descriptor through a `CycleGuard`. -/
  | enterGuard (d : DescriptorId) (ht : t ≠ kNoMaterializationThreadToken)
      (hu : userCode (s.threads t).frames) (hd : d ∉ (s.threads t).materializationStack) :
      Effect D t s (s.setThread t ⟨d :: (s.threads t).materializationStack,
        ⟨.guarded d, (s.threads t).materializationStack⟩ :: (s.threads t).frames⟩)
  /-- A resolve moves on between two phases that own the same. -/
  | move {k : MaterializationKey} {p : Phase} {e : List DescriptorId} {rest : List Frame}
      (p' : Phase) (hf : (s.threads t).frames = ⟨.materialize k p, e⟩ :: rest)
      (hown : p'.owning = p.owning) (hp : p.blocked = false) (hp' : p'.blocked = false)
      (hn : p.notifying = true → ∀ u, ¬ Asleep (s.threads u).frames)
      (hknows : p.Knows D s t k → p'.Knows D s t k) :
      Effect D t s (s.setFrames t (⟨.materialize k p', e⟩ :: rest))
  /-- The wait slots grow. -/
  | grow (c : ℕ) (hc : s.waitingByThreadCapacity ≤ c) :
      Effect D t s { s with waitingByThreadCapacity := c }
  /-- The wait slot is deactivated, under the lock. -/
  | unwait {k : MaterializationKey} {p : Phase} {e : List DescriptorId} {rest : List Frame}
      (w : MaterializationWait) (hf : (s.threads t).frames = ⟨.materialize k p, e⟩ :: rest)
      (hp : p = .claim ∨ p.blocked = true) (hw : w.active = false) :
      Effect D t s ((s.setWait t w).setFrames t (⟨.materialize k .claim, e⟩ :: rest))
  /-- The key is neither stored nor owned: the thread claims it. -/
  | claimed {k : MaterializationKey} {e : List DescriptorId} {rest : List Frame}
      (hf : (s.threads t).frames = ⟨.materialize k .claim, e⟩ :: rest)
      (hfind : s.findInstance D k = none) (hown : s.ownerOf k = none)
      (hd : k.descId ∉ (s.threads t).materializationStack) :
      Effect D t s { s.setThread t ⟨k.descId :: (s.threads t).materializationStack,
          ⟨.materialize k .construct, e⟩ :: rest⟩ with
        materializing := s.materializing ++ [⟨k, t⟩] }
  /-- The key is owned by another thread and no cycle is found: the thread blocks. -/
  | block {k : MaterializationKey} {u : ThreadToken} {e : List DescriptorId} {rest : List Frame}
      (hf : (s.threads t).frames = ⟨.materialize k .claim, e⟩ :: rest)
      (hown : s.ownerOf k = some u) (hu : u ≠ t)
      (hcycle : (s.threads t).materializationStack ≠ [] →
        s.materializationWaitCycleDetected t u = false) :
      Effect D t s
        ((s.setWait t ⟨k, true⟩).setFrames t (⟨.materialize k (.waiting false), e⟩ :: rest))
  /-- The construction is over: its result is stored and the key released. -/
  | release {k : MaterializationKey} {p : Phase} {e : List DescriptorId} {rest : List Frame}
      (result : Option Addr) (hf : (s.threads t).frames = ⟨.materialize k p, e⟩ :: rest)
      (hp : p = (result.map .store).getD .fail) :
      Effect D t s (release D s t k result e rest)
  /-- The waiters are notified. -/
  | notifyAll : Effect D t s s.notifyAll
  /-- A resolve that owns nothing ends; a result it returns is the instance it has seen. -/
  | finish {k : MaterializationKey} {p : Phase} {e : List DescriptorId} {rest : List Frame}
      (r : Except Failure Addr) (hf : (s.threads t).frames = ⟨.materialize k p, e⟩ :: rest)
      (hown : p.owning = false) (hp : p.blocked = false)
      (hn : p.notifying = true → ∀ u, ¬ Asleep (s.threads u).frames)
      (hr : ∀ a, r = .ok a → p.Knows D s t k → s.findInstance D k = some a) :
      Effect D t s (s.finish t ⟨.materialize k p, e⟩ rest k r)
  /-- A guarded resolve ends and its `CycleGuard` pops the stack. -/
  | leaveGuard {d : DescriptorId} {e : List DescriptorId} {rest : List Frame}
      (r : Except Failure Addr) (hf : (s.threads t).frames = ⟨.guarded d, e⟩ :: rest) :
      Effect D t s ((s.setThread t { s.threads t with
        materializationStack := (s.threads t).materializationStack.tail }).finish t
          ⟨.guarded d, e⟩ rest none r)

/-! ## The steps are sequences of effects -/

section Steps

variable {D : Descriptors} {s s' : State} {t : ThreadToken} {k : MaterializationKey}
  {e : List DescriptorId} {rest : List Frame}

theorem valid_singleton {d : DescriptorId} (h : D.lifetime d = .singleton) :
    D.Valid ⟨D.primaryOf d, none⟩ :=
  ⟨D.primaryOf_primaryOf d, (D.lifetime_primaryOf d).trans h, by simp⟩

theorem valid_session {d : DescriptorId} {sc : ScopeId} (h : D.lifetime d = .session)
    (hsc : D.scopeState sc ≠ .stopped) : D.Valid ⟨D.primaryOf d, some sc⟩ :=
  ⟨D.primaryOf_primaryOf d, (D.lifetime_primaryOf d).trans h, by simpa using hsc⟩

theorem resolve_effect (ht : t ≠ kNoMaterializationThreadToken)
    (hu : userCode (s.threads t).frames) (d : DescriptorId) (scope : Option ScopeId) :
    Effect D t s (resolve D s t d scope) := by
  unfold resolve
  cases hl : D.lifetime d with
  | singleton => exact .enter _ ht hu (valid_singleton hl)
  | session =>
    cases scope with
    | none => exact .refuse _
    | some sc =>
      dsimp only
      split
      · exact .refuse _
      · next hsc => exact .enter _ ht hu (valid_session hl hsc)
  | prototype | threadLocal =>
    dsimp only
    split
    · exact .refuse _
    · next hd => exact .enterGuard _ ht hu hd

theorem findFast_effect (hf : (s.threads t).frames = ⟨.materialize k .find, e⟩ :: rest) :
    Effect D t s (findFast D s t k e rest) := by
  -- After a miss the resolve goes on to its wait slot, or throws.
  have next (hc : D.Constructible k) :
      Effect D t s (s.setFrames t (⟨.materialize k .ensureSlot, e⟩ :: rest)) :=
    .move _ hf rfl rfl rfl nofun fun _ => ⟨fun _ => hc, trivial⟩
  have throw (err : Failure) :
      Effect D t s (s.finish t ⟨.materialize k .find, e⟩ rest k (.error err)) :=
    .finish _ hf rfl rfl nofun fun a ha => by cases ha
  unfold findFast
  dsimp only
  cases hfind : s.findInstance D k with
  | some a =>
    refine .finish _ hf rfl rfl nofun fun b hb _ => ?_
    cases hb
    exact hfind
  | none =>
    dsimp only
    split
    · next hk => exact next fun sc hsc => by simp [hk] at hsc
    · next sc hk =>
      split
      · exact throw _
      · next hstop =>
        split
        · exact throw _
        · next horigin =>
          refine next fun sc' hsc' => ?_
          obtain rfl : sc = sc' := by simpa [hk] using hsc'
          exact ⟨hstop, horigin⟩

/-- The decisions of the claim loop, with what the loop has checked for each. -/
theorem claimDecision_spec (D : Descriptors) (s : State) (t : ThreadToken)
    (k : MaterializationKey) : match claimDecision D s t k with
    | .existing => (s.findInstance D k).isSome
    | .claimed => s.findInstance D k = none ∧ s.ownerOf k = none ∧
        k.descId ∉ (s.threads t).materializationStack
    | .intraThreadCycle => s.findInstance D k = none ∧
        (s.ownerOf k = some t ∨ k.descId ∈ (s.threads t).materializationStack)
    | .crossThreadCycle => s.findInstance D k = none ∧ ∃ u, s.ownerOf k = some u ∧ u ≠ t ∧
        (s.threads t).materializationStack ≠ [] ∧ s.materializationWaitCycleDetected t u = true
    | .wait => s.findInstance D k = none ∧ ∃ u, s.ownerOf k = some u ∧ u ≠ t ∧
        ((s.threads t).materializationStack ≠ [] →
          s.materializationWaitCycleDetected t u = false) := by
  unfold claimDecision
  -- In the order of the checks: an instance, an owner, the thread itself, the stack, and the graph.
  dsimp only
  cases hfind : s.findInstance D k with
  | some a => simp
  | none =>
    cases hown : s.ownerOf k with
    | none => by_cases hd : k.descId ∈ (s.threads t).materializationStack <;> simp [hd]
    | some u =>
      by_cases hu : u = t
      · simp [hu]
      · by_cases hc : (s.threads t).materializationStack ≠ [] ∧
            s.materializationWaitCycleDetected t u
        · simp [hu, hc]
        -- The check of the graph is made only by a thread that constructs something.
        · simp only [Option.isSome_none, Bool.false_eq_true, if_false, hu, hc]
          refine ⟨trivial, u, rfl, hu, fun hs => ?_⟩
          exact Bool.eq_false_iff.mpr fun hd => hc ⟨hs, hd⟩

theorem claimIteration_effect (hf : (s.threads t).frames = ⟨.materialize k .claim, e⟩ :: rest) :
    Effect D t s (claimIteration D s t k e rest) := by
  have spec := claimDecision_spec D s t k
  have throw (err : Failure) :
      Effect D t s (s.finish t ⟨.materialize k .claim, e⟩ rest k (.error err)) :=
    .finish _ hf rfl rfl nofun fun a ha => by cases ha
  unfold claimIteration
  dsimp only
  cases hdec : claimDecision D s t k <;> simp only [hdec] at spec ⊢
  case existing => exact .move .refind hf rfl rfl rfl nofun fun h => ⟨fun _ => h.1 (by simp), spec⟩
  case claimed => exact .claimed hf spec.1 spec.2.1 spec.2.2
  case intraThreadCycle => exact throw _
  case crossThreadCycle => exact throw _
  case wait =>
    obtain ⟨_, u, hown, hu, hcycle⟩ := spec
    exact .block hf hown hu hcycle

/-- Every step is a sequence of effects of the moving thread. -/
theorem step_effects {a : Action} (h : step D s a = some s') :
    ReflTransGen (Effect D a.thread) s s' := by
  -- One case for each frame on top; an instance is stored, or a key released, by one effect each.
  obtain ⟨t, act⟩ := a
  unfold step at h
  dsimp only at h ⊢
  split at h
  case h_1 fs d scope =>
    split at h
    · next hu => cases h; exact .single (resolve_effect hu.1 hu.2 d scope)
    · cases h
  case h_2 k e rest hf => cases h; exact .single (findFast_effect hf)
  case h_3 k e rest hf =>
    cases h
    have hcap := s.ensureMaterializationWaitSlot_capacity t
    rw [s.ensureMaterializationWaitSlot_eq t]
    refine .tail (.single (.grow _ hcap.1)) (.move .claim hf rfl rfl rfl nofun fun h => ?_)
    exact ⟨fun _ => h.1 (by simp), hcap.2⟩
  case h_4 k e rest hf =>
    cases h
    have hun : Effect D t s (s.setWait t {}) :=
      -- The wait of the thread is over, whichever branch the claim takes.
      (s.setWait t {}).setFrames_eq_self t hf ▸ .unwait {} hf (.inl rfl) rfl
    unfold claimMaterializationOrWait
    dsimp only
    split
    · exact .tail (.single hun) (.finish _ hf rfl rfl nofun fun a ha => by cases ha)
    · exact .tail (.single hun) (claimIteration_effect hf)
  case h_5 k n e rest hf =>
    cases h
    exact .tail (.single (.unwait _ hf (.inr rfl) rfl)) (claimIteration_effect (by simp))
  case h_6 k e rest hf =>
    obtain ⟨a, ha, rfl⟩ := Option.map_eq_some_iff.mp h
    refine .single (.finish _ hf rfl rfl nofun fun b hb _ => ?_)
    cases hb
    exact ha
  case h_7 result k e rest hf =>
    split at h
    · cases h
    · cases h
      refine .single (.move _ hf ?_ rfl ?_ nofun fun h => ⟨fun _ => h.1 (by simp), ?_⟩) <;>
        cases result <;> trivial
  case h_8 k mem e rest hf => cases h; exact .single (.release (some mem) hf rfl)
  case h_9 k e rest hf => cases h; exact .single (.release none hf rfl)
  case h_10 k result e rest hf =>
    cases h
    have hf' : (s.notifyAll.threads t).frames = ⟨.materialize k (.notify result), e⟩ :: rest := by
      rw [s.notifyAll_threads_of_not_blocked t hf rfl, hf]
    have hn (_ : Phase.notifying (.notify result) = true) := s.notifyAll_not_asleep
    -- All sleepers are woken before the thread goes on.
    refine .tail (.single .notifyAll) ?_
    cases result with
    | some mem => exact .move _ hf' rfl rfl rfl hn fun h => ⟨fun _ => h.1 (by simp), h.2⟩
    | none => exact .finish _ hf' rfl rfl hn fun a ha => by cases ha
  case h_11 completed k mem e rest hf =>
    cases h
    refine .single (.finish _ hf rfl rfl nofun fun a ha h => ?_)
    cases completed with
    | true => cases ha; exact h.2
    | false => cases ha
  case h_12 result d e rest hf => cases h; exact .single (.leaveGuard _ hf)
  case h_13 => cases h

end Steps

end Ctorium.Materialization
