import Ctorium.WaitSlots.Tokens

/-!
# The wait edges

The deadlock check reads, for each thread, the key that it waits for. It finds it in a table that
is shared by all threads, at the slot of a token that other threads have had before.

* `Waits.step`: a thread that waits has its key in its slot, as no other thread writes there.
* `edges_exact`: so the active slots of a registry are the threads that wait on it, with the keys
  that they wait for. Hence the table holds what a field of each thread would hold.
* `slots_apart`: distinct tokens have distinct cells, and no chunk is lost: each one that was
  allocated is in the table, or in the list that the holder of the mutex is about to publish.
-/

namespace Ctorium.WaitSlots

open Function
open Materialization (MaterializationKey MaterializationWait)

variable {registryId : RegistryRef → UInt32} {s s' : State} {r : RegistryRef}
  {reg reg' : Registry} {t u : ThreadId} {th th' thu : Thread} {x : UInt32}
  {key : MaterializationKey} {a : Action}

/-! ## The slots of the threads that wait -/

/-- Every thread that waits has its edge in its slot. -/
def Waits (s : State) : Prop :=
  ∀ t th r key, s.threads t = some th → th.pc = .waiting r key →
    ∀ reg, s.registries r = some reg → reg.waitSlot th.token = some ⟨key, true⟩

/-- A step of a thread leaves the other threads alone, and changes at most one registry, which is
    there. -/
theorem threadStep_frame (hs : threadStep registryId s t th a = some s')
    (ha : a.thread? = some t) : (∀ u, u ≠ t → s'.threads u = s.threads u) ∧
      (s'.registries = s.registries ∨ ∃ r reg reg', s.registries r = some reg ∧
        s'.registries = update s.registries r (some reg')) := by
  -- A thread changes its own state, and at most the registry that its action names.
  cases a with
  | construct | destroy r | start u => cases hs
  | enter u r =>
    obtain rfl := Option.some.inj ha
    obtain ⟨-, hs⟩ := Option.ite_none_right_eq_some.mp hs
    obtain ⟨nextToken, freeTokens, heq⟩ := materializationThreadToken_snd s th
    have hthreads : (materializationThreadToken s th).2.threads = s.threads := by rw [heq]
    have hregistries : (materializationThreadToken s th).2.registries = s.registries := by rw [heq]
    obtain rfl := Option.some.inj hs
    exact ⟨fun v hv => (setThread_of_ne hv).trans (congrFun hthreads v), .inl hregistries⟩
  | note u memory =>
    obtain ⟨r, -, registered, pc, rfl, -⟩ := note_cases hs
    exact ⟨fun v hv => setThread_of_ne hv, .inl rfl⟩
  | ensure u memory =>
    obtain ⟨r, reg, -, hreg, -, hnext⟩ := ensure_cases registryId hs
    rcases hnext with ⟨-, rfl⟩ | ⟨-, rfl⟩ | rfl
    · exact ⟨fun v hv => setThread_of_ne hv, .inl rfl⟩
    · exact ⟨fun v hv => setThread_of_ne hv, .inr ⟨r, reg, _, hreg, rfl⟩⟩
    · exact ⟨fun v hv => setThread_of_ne hv, .inl rfl⟩
  | publish u =>
    obtain ⟨r, grown, reg, -, hreg, rfl⟩ := publish_cases registryId hs
    exact ⟨fun v hv => setThread_of_ne hv, .inr ⟨r, reg, _, hreg, rfl⟩⟩
  | claim u wait =>
    obtain ⟨r, reg, -, hreg, hnext⟩ := claim_cases registryId hs
    rcases hnext with ⟨reg', -, rfl⟩ | ⟨key, reg', -, rfl⟩ <;>
      exact ⟨fun v hv => setThread_of_ne hv, .inr ⟨r, reg, _, hreg, rfl⟩⟩
  | wake u again =>
    obtain ⟨r, key, reg, -, hreg, hnext⟩ := wake_cases registryId hs
    rcases hnext with ⟨reg', -, rfl⟩ | ⟨wait, reg', -, rfl⟩
    · exact ⟨fun v _ => rfl, .inr ⟨r, reg, _, hreg, rfl⟩⟩
    · exact ⟨fun v hv => setThread_of_ne hv, .inr ⟨r, reg, _, hreg, rfl⟩⟩
  | exit u order =>
    obtain ⟨-, hs⟩ := Option.ite_none_right_eq_some.mp hs
    obtain rfl := Option.some.inj hs
    exact ⟨fun v hv => setThread_of_ne hv, .inl rfl⟩
  | clear u =>
    obtain ⟨r, rest, -, hnext⟩ := clear_cases registryId hs
    rcases hnext with ⟨-, rfl⟩ | ⟨reg, reg', hreg, -, rfl⟩
    · exact ⟨fun v hv => setThread_of_ne hv, .inl rfl⟩
    · exact ⟨fun v hv => setThread_of_ne hv, .inr ⟨r, reg, _, hreg, rfl⟩⟩
  | recycle u memory =>
    obtain ⟨-, freeTokens, -, rfl⟩ := recycle_cases registryId hs
    exact ⟨fun v hv => setThread_of_ne hv, .inl rfl⟩

/-- A step of a thread makes no registry. -/
theorem exists_registry (hs : threadStep registryId s t th a = some s') (ha : a.thread? = some t)
    (hreg' : s'.registries r = some reg') : ∃ reg, s.registries r = some reg := by
  rcases (threadStep_frame hs ha).2 with heq | ⟨r₁, reg₁, reg₂, hr₁, heq⟩
  · exact ⟨reg', heq ▸ hreg'⟩
  · by_cases hrr : r = r₁
    · exact ⟨reg₁, hrr ▸ hr₁⟩
    · rw [heq, update_of_ne hrr] at hreg'
      exact ⟨reg', hreg'⟩

/-- A thread that waits after its own step has just set its edge. -/
theorem waits_self (htables : Tables s) (ht : s.threads t = some th) (ha : a.thread? = some t)
    (hs : threadStep registryId s t th a = some s') (ht' : s'.threads t = some th')
    (hpc' : th'.pc = .waiting r key) (hreg' : s'.registries r = some reg') :
    reg'.waitSlot th'.token = some ⟨key, true⟩ := by
  -- The thread sets the edge of its own token in a table of the state.
  have hset : ∀ {r₁ reg₁ reg₂ wait thr}, s.registries r₁ = some reg₁ →
      reg₁.setWaitSlot th.token wait = some reg₂ →
      s' = (s.setRegistry r₁ (some reg₂)).setThread t (some thr) → thr.token = th.token →
      (thr.pc = .waiting r key → r₁ = r ∧ wait = ⟨key, true⟩) →
      reg'.waitSlot th'.token = some ⟨key, true⟩ := by
    intro r₁ reg₁ reg₂ wait thr hr₁ hwrite heq htoken hwait
    subst heq
    obtain rfl := Option.some.inj (setThread_self.symm.trans ht')
    obtain ⟨rfl, rfl⟩ := hwait hpc'
    obtain rfl : reg₂ = reg' := Option.some.inj (setRegistry_self.symm.trans hreg')
    rw [htoken, ((htables.ok r₁ reg₁ hr₁).setWaitSlot hwrite).2.2.2.2.2, if_pos rfl]
  have hother : ∀ {s₁ : State} {thr}, s' = s₁.setThread t (some thr) →
      (∀ r key, thr.pc ≠ .waiting r key) → reg'.waitSlot th'.token = some ⟨key, true⟩ := by
    intro s₁ thr heq hne
    subst heq
    obtain rfl := Option.some.inj (setThread_self.symm.trans ht')
    exact absurd hpc' (hne r key)
  cases a with
  | construct | destroy r | start u => cases hs
  | enter u r =>
    obtain rfl := Option.some.inj ha
    obtain ⟨-, hs⟩ := Option.ite_none_right_eq_some.mp hs
    exact hother (Option.some.inj hs).symm (by simp)
  | note u memory =>
    obtain ⟨r₁, -, registered, pc, heq, rfl | rfl⟩ := note_cases hs <;>
      exact hother heq (by simp)
  | ensure u memory =>
    obtain ⟨r₁, reg₁, -, hr₁, -, hnext⟩ := ensure_cases registryId hs
    rcases hnext with ⟨-, heq⟩ | ⟨-, heq⟩ | heq <;> exact hother heq (by simp)
  | publish u =>
    obtain ⟨r₁, grown, reg₁, -, hr₁, heq⟩ := publish_cases registryId hs
    exact hother heq (by simp)
  | claim u wait =>
    obtain ⟨r₁, reg₁, -, hr₁, hnext⟩ := claim_cases registryId hs
    rcases hnext with ⟨reg₂, hwrite, heq⟩ | ⟨key', reg₂, hwrite, heq⟩
    · exact hset hr₁ hwrite heq rfl (by simp)
    · refine hset hr₁ hwrite heq rfl fun hpc => ?_
      obtain ⟨rfl, rfl⟩ := Pc.waiting.inj hpc
      exact ⟨rfl, rfl⟩
  | wake u again =>
    obtain ⟨r₁, key', reg₁, hpc, hr₁, hnext⟩ := wake_cases registryId hs
    rcases hnext with ⟨reg₂, hwrite, heq⟩ | ⟨wait, reg₂, hwrite, heq⟩
    · have hsame : (s.setRegistry r₁ (some reg₂)).setThread t (some th) =
          s.setRegistry r₁ (some reg₂) := setThread_same ht
      refine hset hr₁ hwrite (heq.trans hsame.symm) rfl fun hpc' => ?_
      obtain ⟨rfl, rfl⟩ := Pc.waiting.inj (hpc.symm.trans hpc')
      exact ⟨rfl, rfl⟩
    · exact hset hr₁ hwrite heq rfl (by simp)
  | exit u order =>
    obtain ⟨-, hs⟩ := Option.ite_none_right_eq_some.mp hs
    exact hother (Option.some.inj hs).symm (by simp)
  | clear u =>
    obtain ⟨r₁, rest, -, hnext⟩ := clear_cases registryId hs
    rcases hnext with ⟨-, heq⟩ | ⟨reg₁, reg₂, -, -, heq⟩ <;> exact hother heq (by simp)
  | recycle u memory =>
    obtain ⟨-, freeTokens, -, rfl⟩ := recycle_cases registryId hs
    rw [setThread_self] at ht'
    cases ht'

/-- A step of another thread does not write the slot of a thread that waits. -/
theorem waits_other (hinv : Inv s) (hwaits : Waits s) (ht : s.threads t = some th)
    (ha : a.thread? = some t) (hs : threadStep registryId s t th a = some s') (hut : u ≠ t)
    (hu : s.threads u = some thu) (hpc : thu.pc = .waiting r key)
    (hreg' : s'.registries r = some reg') : reg'.waitSlot thu.token = some ⟨key, true⟩ := by
  obtain ⟨reg, hreg⟩ := exists_registry hs ha hreg'
  have hcall : thu.InCall := by simp [Thread.InCall, hpc]
  have hforeign : a.writes th ≠ some thu.token := by
    intro heq
    have htoken : th.token = thu.token := by
      unfold Action.writes at heq
      split at heq <;> first | exact Option.some.inj heq | cases heq
    exact hut (hinv.tokens.distinct u t thu th hu ht htoken.symm
      (hinv.tokens.inCall u thu hu hcall))
  have hslot := hinv.tables.ensured u thu r hu (.inr ⟨key, hpc⟩) reg hreg
  rw [(hinv.tables.keeps_threadStep ht ha hs hreg hreg').waitSlot thu.token hforeign hslot]
  exact hwaits u thu r key hu hpc reg hreg

theorem Waits.step (hwaits : Waits s) (hinv : Inv s) (hs : step registryId s a = some s') :
    Waits s' := by
  intro u thu r key hu hpc reg' hreg'
  rcases step_cases hs with ⟨-, rfl⟩ | ⟨r₁, -, rfl⟩ | ⟨t, -, -, rfl⟩ | ⟨t, th, ha, ht, hs⟩
  · have hne : r ≠ s.created :=
      Nat.ne_of_lt (hinv.tables.known u thu r hu (.inl (.inr ⟨key, hpc⟩)))
    exact hwaits u thu r key hu hpc reg' ((update_of_ne hne ..).symm.trans hreg')
  · by_cases hrr : r = r₁
    · rw [hrr, setRegistry_self] at hreg'
      cases hreg'
    · exact hwaits u thu r key hu hpc reg' ((setRegistry_of_ne hrr).symm.trans hreg')
  · by_cases hut : u = t
    · rw [hut, setThread_self] at hu
      obtain rfl := Option.some.inj hu
      cases hpc
    · exact hwaits u thu r key ((setThread_of_ne hut).symm.trans hu) hpc reg' hreg'
  · by_cases hut : u = t
    · subst hut
      exact waits_self hinv.tables ht ha hs hu hpc hreg'
    · rw [(threadStep_frame hs ha).1 u hut] at hu
      exact waits_other hinv hwaits ht ha hs hut hu hpc hreg'

/-- In every run in which the counter of tokens does not wrap, the active slots of a registry are
    the threads that wait on it, each with the key that it waits for. -/
theorem edges_exact (registryId : RegistryRef → UInt32) (s : State)
    (h : (machine registryId).ReachableBy CounterLeft s) (r : RegistryRef) (reg : Registry)
    (hreg : s.registries r = some reg) (x : UInt32) (key : MaterializationKey) :
    reg.waitSlot x = some ⟨key, true⟩ ↔
      ∃! t, ∃ th, s.threads t = some th ∧ th.token = x ∧ th.pc = .waiting r key := by
  have hinv := inv_of_reachableBy h
  have hwaits : Waits s := by
    refine (h.invariant (P := fun s => Inv s ∧ Waits s) (fun s hs => ?_)
      fun s a s' hinv hleft hs => ?_).2
    · subst hs
      exact ⟨⟨.initial, .initial⟩, by rintro t th r key ⟨⟩⟩
    · exact ⟨⟨hinv.1.tables.step hs, hinv.1.tokens.step hleft hs⟩, hinv.2.step hinv.1 hs⟩
  refine ⟨fun hslot => ?_, ?_⟩
  · obtain ⟨t, th, key', ht, rfl, hpc⟩ := hinv.tables.active r reg x _ hreg hslot rfl
    have hown := hwaits t th r key' ht hpc reg hreg
    obtain rfl : key' = key := by
      rw [hslot] at hown
      exact congrArg MaterializationWait.key (Option.some.inj hown).symm
    refine ⟨t, ⟨th, ht, rfl, hpc⟩, fun u hu => ?_⟩
    obtain ⟨thu, hu, htoken, hpcu⟩ := hu
    have hcall : thu.InCall := by simp [Thread.InCall, hpcu]
    exact hinv.tokens.distinct u t thu th hu ht htoken (hinv.tokens.inCall u thu hu hcall)
  · rintro ⟨t, ⟨th, ht, rfl, hpc⟩, -⟩
    exact hwaits t th r key ht hpc reg hreg

/-- A thread waits on the first registry. -/
def waitFor (key : MaterializationKey) : List Action :=
  [.construct, .start 0, .enter 0 0, .note 0 true, .ensure 0 true, .publish 0, .claim 0 (some key)]

theorem edges_exact_waitFor :
    ∃ s reg, (machine inOrder).run {} (waitFor ⟨5, none⟩) = some s ∧ s.registries 0 = some reg ∧
      ∀ x key, reg.waitSlot x = some ⟨key, true⟩ ↔
        ∃! t, ∃ th, s.threads t = some th ∧ th.token = x ∧ th.pc = .waiting 0 key := by
  have halong : (machine inOrder).Along (fun s _ => s.nextToken.toNat + 1 < 2 ^ 32) {}
      (waitFor ⟨5, none⟩) := by
    decide +kernel
  refine ⟨_, _, rfl, rfl, edges_exact inOrder _ ?_ 0 _ rfl⟩
  exact Machine.ReachableBy.run (.init rfl) (halong.mono fun s a h => counterLeft_of_lt h a) rfl

/-! ## The chunks -/

/-- The chunks of a table are those that were allocated, in this order; while a thread grows the
    table, the new ones are in its list. -/
def Accounted (s : State) (r : RegistryRef) (reg : Registry) : Prop :=
  reg.chunks = List.range reg.chunks.length ∧
    (reg.waitSlotsMutex = none ∧ reg.owned = reg.chunks.length ∨
      ∃ t th, reg.waitSlotsMutex = some t ∧ s.threads t = some th ∧
        th.pc = .growing r (List.range reg.owned) ∧ reg.chunks.length < reg.owned ∧
        ¬ th.token.toNat + 1 ≤ reg.capacity)

namespace Accounted

theorem of_empty : Accounted s r {} := ⟨rfl, .inl ⟨rfl, rfl⟩⟩

/-- Another table, and a thread that does not grow this one. -/
theorem moveOn (h : Accounted s r reg) (hchunks : reg'.chunks = reg.chunks)
    (hcapacity : reg'.capacity = reg.capacity) (howned : reg'.owned = reg.owned)
    (hmutex : reg'.waitSlotsMutex = reg.waitSlotsMutex)
    (hthreads : ∀ u, u ≠ t → s'.threads u = s.threads u)
    (hidle : ∀ th, s.threads t = some th → ∀ grown, th.pc ≠ .growing r grown) :
    Accounted s' r reg' := by
  refine ⟨by rw [hchunks, ← h.1], h.2.imp ?_ ?_⟩
  · rintro ⟨hnone, hall⟩
    exact ⟨hmutex.trans hnone, by rw [howned, hall, hchunks]⟩
  · rintro ⟨u, thu, hheld, hu, hpc, hlt, hsmall⟩
    have hut : u ≠ t := fun heq => hidle thu (heq ▸ hu) _ hpc
    exact ⟨u, thu, hmutex.trans hheld, (hthreads u hut).trans hu, howned ▸ hpc,
      by rw [hchunks, howned]; exact hlt, hcapacity ▸ hsmall⟩

/-- The new chunks are allocated. -/
theorem allocate (h : Accounted s r reg) (hok : reg.Ok) (hnone : reg.waitSlotsMutex = none)
    (hsmall : ¬ th.token.toNat + 1 ≤ reg.capacity) :
    Accounted ((s.setRegistry r (some (reg.allocate t th.token))).setThread t
      (some { th with pc := .growing r (reg.grown th.token) })) r (reg.allocate t th.token) := by
  obtain ⟨hchunks, hrest⟩ := h
  have hall : reg.owned = reg.chunks.length := by
    rcases hrest with ⟨-, hall⟩ | ⟨u, thu, hheld, -⟩
    · exact hall
    · rw [hnone] at hheld
      cases hheld
  have hneeded : reg.chunks.length < Registry.requiredChunkCount th.token := by
    have hcapacity := hok.capacity
    simp only [Registry.requiredChunkCount, Materialization.kMaterializationWaitChunkSize] at *
    omega
  refine ⟨hchunks, .inr ⟨t, _, rfl, setThread_self, ?_, ?_, hsmall⟩⟩
  · have happend : ∀ n m : ℕ, List.range' 0 n ++ List.range' n m = List.range' 0 (n + m) := by
      intro n m
      rw [← List.range'_append_1, Nat.zero_add]
    have hgrown : reg.grown th.token = List.range (reg.allocate t th.token).owned := by
      rw [List.range_eq_range', Registry.allocate, Registry.grown, hall, ← happend,
        ← List.range_eq_range', ← hchunks]
    exact congrArg (Pc.growing r) hgrown
  · exact (Nat.lt_add_of_pos_right (Nat.sub_pos_of_lt hneeded)).trans_eq' hall

/-- The longer list is swapped in. -/
theorem publish (h : Accounted s r reg) {grown : List ChunkId} (hheld : reg.waitSlotsMutex = some t)
    (ht : s.threads t = some th) (hpc : th.pc = .growing r grown) :
    Accounted s' r (reg.publish th.token grown) := by
  obtain ⟨-, ⟨hnone, -⟩ | ⟨u, thu, hheld', hu, hpcu, -, hsmall⟩⟩ := h
  · rw [hheld] at hnone
    cases hnone
  · obtain rfl := Option.some.inj (hheld.symm.trans hheld')
    obtain rfl := Option.some.inj (ht.symm.trans hu)
    obtain ⟨-, rfl⟩ := Pc.growing.inj (hpc.symm.trans hpcu)
    rw [Registry.publish, if_neg hsmall]
    exact ⟨by rw [List.length_range], .inl ⟨rfl, List.length_range.symm⟩⟩

/-- A step of a thread, on any registry. -/
theorem threadStep (htables : Tables s) (h : ∀ r reg, s.registries r = some reg → Accounted s r reg)
    (ht : s.threads t = some th) (ha : a.thread? = some t)
    (hs : WaitSlots.threadStep registryId s t th a = some s')
    (hreg' : s'.registries r = some reg') :
    Accounted s' r reg' := by
  have hthreads := (threadStep_frame hs ha).1
  have hidle : ∀ {pc : Pc}, th.pc = pc → (∀ r grown, pc ≠ .growing r grown) →
      ∀ thr, s.threads t = some thr → ∀ grown, thr.pc ≠ .growing r grown := by
    intro pc hpc hne thr hthr grown heq
    obtain rfl := Option.some.inj (ht.symm.trans hthr)
    exact hne r grown (hpc.symm.trans heq)
  -- The tables stay.
  have hsame : ∀ {pc : Pc}, th.pc = pc → (∀ r grown, pc ≠ .growing r grown) →
      s'.registries = s.registries → Accounted s' r reg' := fun hpc hne heq =>
    (h r reg' (heq ▸ hreg')).moveOn rfl rfl rfl rfl hthreads (hidle hpc hne)
  -- One slot is written.
  have hwrite : ∀ {pc : Pc} {r₁ reg₁ reg₂ wait}, th.pc = pc → (∀ r grown, pc ≠ .growing r grown) →
      s.registries r₁ = some reg₁ → reg₁.setWaitSlot th.token wait = some reg₂ →
      s'.registries = update s.registries r₁ (some reg₂) → Accounted s' r reg' := by
    intro pc r₁ reg₁ reg₂ wait hpc hne hr₁ hset heq
    rw [heq] at hreg'
    by_cases hrr : r = r₁
    · subst hrr
      rw [update_self] at hreg'
      obtain rfl := Option.some.inj hreg'
      obtain ⟨-, hchunks, hcapacity, howned, hmutex, -⟩ := (htables.ok r reg₁ hr₁).setWaitSlot hset
      exact (h r reg₁ hr₁).moveOn hchunks hcapacity howned hmutex hthreads (hidle hpc hne)
    · rw [update_of_ne hrr] at hreg'
      exact (h r reg' hreg').moveOn rfl rfl rfl rfl hthreads (hidle hpc hne)
  cases a with
  | construct | destroy r | start u => cases hs
  | enter u r =>
    obtain ⟨⟨hpc, -⟩, hs⟩ := Option.ite_none_right_eq_some.mp hs
    obtain ⟨nextToken, freeTokens, heq⟩ := materializationThreadToken_snd s th
    have hregistries : (materializationThreadToken s th).2.registries = s.registries := by rw [heq]
    obtain rfl := Option.some.inj hs
    exact hsame hpc (by simp) hregistries
  | note u memory =>
    obtain ⟨r₁, hpc, registered, pc, rfl, -⟩ := note_cases hs
    exact hsame hpc (by simp) rfl
  | ensure u memory =>
    obtain rfl := Option.some.inj ha
    obtain ⟨r₁, reg₁, hpc, hr₁, hnone, hnext⟩ := ensure_cases registryId hs
    rcases hnext with ⟨-, rfl⟩ | ⟨hsmall, rfl⟩ | rfl
    · exact hsame hpc (by simp) rfl
    · by_cases hrr : r = r₁
      · subst hrr
        obtain rfl := Option.some.inj (setRegistry_self.symm.trans hreg')
        exact (h r reg₁ hr₁).allocate (htables.ok r reg₁ hr₁) hnone hsmall
      · exact (h r reg' ((setRegistry_of_ne hrr).symm.trans hreg')).moveOn rfl rfl rfl rfl hthreads
          (hidle hpc (by simp))
    · exact hsame hpc (by simp) rfl
  | publish u =>
    obtain rfl := Option.some.inj ha
    obtain ⟨r₁, grown, reg₁, hpc, hr₁, rfl⟩ := publish_cases registryId hs
    by_cases hrr : r = r₁
    · subst hrr
      obtain rfl := Option.some.inj (setRegistry_self.symm.trans hreg')
      exact (h r reg₁ hr₁).publish (htables.growing u th r grown ht hpc reg₁ hr₁).1 ht hpc
    · refine (h r reg' ((setRegistry_of_ne hrr).symm.trans hreg')).moveOn rfl rfl rfl rfl hthreads
        fun thr hthr grown' heq => ?_
      obtain rfl := Option.some.inj (ht.symm.trans hthr)
      exact hrr (Pc.growing.inj (heq.symm.trans hpc)).1
  | claim u wait =>
    obtain ⟨r₁, reg₁, hpc, hr₁, hnext⟩ := claim_cases registryId hs
    rcases hnext with ⟨reg₂, hset, rfl⟩ | ⟨key, reg₂, hset, rfl⟩ <;>
      exact hwrite hpc (by simp) hr₁ hset rfl
  | wake u again =>
    obtain ⟨r₁, key, reg₁, hpc, hr₁, hnext⟩ := wake_cases registryId hs
    rcases hnext with ⟨reg₂, hset, rfl⟩ | ⟨wait, reg₂, hset, rfl⟩ <;>
      exact hwrite hpc (by simp) hr₁ hset rfl
  | exit u order =>
    obtain ⟨⟨hpc, -⟩, hs⟩ := Option.ite_none_right_eq_some.mp hs
    obtain rfl := Option.some.inj hs
    exact hsame hpc (by simp) rfl
  | clear u =>
    obtain ⟨r₁, rest, hpc, hnext⟩ := clear_cases registryId hs
    rcases hnext with ⟨-, rfl⟩ | ⟨reg₁, reg₂, hr₁, hset, rfl⟩
    · exact hsame hpc (by simp) rfl
    · exact hwrite hpc (by simp) hr₁ hset rfl
  | recycle u memory =>
    obtain ⟨hpc, freeTokens, -, rfl⟩ := recycle_cases registryId hs
    exact hsame hpc (by simp) rfl

/-- A step of the process. -/
theorem step (htables : Tables s) (h : ∀ r reg, s.registries r = some reg → Accounted s r reg)
    (hs : WaitSlots.step registryId s a = some s') (hreg' : s'.registries r = some reg') :
    Accounted s' r reg' := by
  rcases step_cases hs with ⟨-, rfl⟩ | ⟨r₁, -, rfl⟩ | ⟨t, -, hnone, rfl⟩ | ⟨t, th, ha, ht, hs⟩
  · by_cases hrr : r = s.created
    · subst hrr
      obtain rfl : ({} : Registry) = reg' := Option.some.inj (setRegistry_self.symm.trans hreg')
      exact of_empty
    · exact h r reg' ((update_of_ne hrr ..).symm.trans hreg')
  · by_cases hrr : r = r₁
    · rw [hrr, setRegistry_self] at hreg'
      cases hreg'
    · exact h r reg' ((setRegistry_of_ne hrr).symm.trans hreg')
  · have hidle : ∀ th, s.threads t = some th → ∀ grown, th.pc ≠ .growing r grown := by
      intro th ht
      rw [hnone] at ht
      cases ht
    exact (h r reg' hreg').moveOn rfl rfl rfl rfl (fun u hu => setThread_of_ne hu) hidle
  · exact threadStep htables h ht ha hs hreg'

end Accounted

/-- In every interleaving, distinct slots of a table are distinct cells, and the chunks that were
    allocated are those of the table, but for the new ones of the thread that is growing it. -/
theorem slots_apart (registryId : RegistryRef → UInt32) (s : State)
    (h : (machine registryId).Reachable s) (r : RegistryRef) (reg : Registry)
    (hreg : s.registries r = some reg) :
    (∀ x, reg.HasWaitSlot x → ∃ p, reg.address x = some p ∧ ∀ y, reg.address y = some p → y = x) ∧
      reg.chunks <+: List.range reg.owned ∧
      (reg.chunks ≠ List.range reg.owned → ∃ t th, reg.waitSlotsMutex = some t ∧
        s.threads t = some th ∧ th.pc = .growing r (List.range reg.owned)) := by
  -- Both facts hold along the run, the second one with the help of the first.
  obtain ⟨htables, haccounted⟩ : Tables s ∧ ∀ r reg, s.registries r = some reg →
      Accounted s r reg := by
    refine h.invariant (P := fun s => Tables s ∧ ∀ r reg, s.registries r = some reg →
      Accounted s r reg) (fun s hs => ?_) fun s a s' hinv hs => ?_
    · subst hs
      exact ⟨.initial, by rintro r reg ⟨⟩⟩
    · exact ⟨hinv.1.step hs, fun r reg hreg => Accounted.step hinv.1 hinv.2 hs hreg⟩
  have hok := htables.ok r reg hreg
  obtain ⟨hchunks, hrest⟩ := haccounted r reg hreg
  refine ⟨fun x hx => ?_, ?_, fun hne => ?_⟩
  · obtain ⟨chunk, -, haddress⟩ := hok.exists_address hx
    exact ⟨_, haddress, fun y hy => hok.address_inj hy haddress⟩
  · have hle : reg.chunks.length ≤ reg.owned := by
      rcases hrest with ⟨-, hall⟩ | ⟨-, -, -, -, -, hlt, -⟩
      · exact hall.ge
      · exact hlt.le
    rw [hchunks]
    exact List.prefix_iff_eq_take.mpr (by simp [List.take_range, hle])
  -- Chunks are missing only while the holder of the lock grows the table.
  · rcases hrest with ⟨-, hall⟩ | ⟨t, th, hheld, ht, hpc, -⟩
    · exact absurd (hall ▸ hchunks) hne
    · exact ⟨t, th, hheld, ht, hpc⟩

theorem slots_apart_waitFor :
    ∃ s reg, (machine inOrder).run {} (waitFor ⟨5, none⟩) = some s ∧ s.registries 0 = some reg ∧
      (∀ x, reg.HasWaitSlot x →
        ∃ p, reg.address x = some p ∧ ∀ y, reg.address y = some p → y = x) ∧
      reg.chunks <+: List.range reg.owned ∧
      (reg.chunks ≠ List.range reg.owned → ∃ t th, reg.waitSlotsMutex = some t ∧
        s.threads t = some th ∧ th.pc = .growing 0 (List.range reg.owned)) := by
  refine ⟨_, _, rfl, rfl, slots_apart inOrder _ ?_ 0 _ rfl⟩
  exact Machine.Reachable.run (.init rfl)
    (show (machine inOrder).run {} (waitFor ⟨5, none⟩) = some _ from rfl)

end Ctorium.WaitSlots
