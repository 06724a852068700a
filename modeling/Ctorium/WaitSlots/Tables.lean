import Ctorium.WaitSlots

/-!
# The wait tables

What holds of the wait table of every registry in every reachable state, whatever the tokens:

* `Registry.Ok`: distinct slots are distinct cells, and a cell outside the table is inactive;
* `Tables.growing`: the list that a thread is about to publish extends the published one, as
  only the holder of `waitSlotsMutex_` changes it (`Registry.Growth`);
* `Tables.active`: an active slot belongs to a thread that waits.

`Tables.step` is the step lemma. `Tables.keeps` says what a step does to the slots of a registry:
the growth keeps them, and every other step changes at most the slot of the thread that takes
it.
-/

namespace Ctorium.WaitSlots

open Function
open Materialization (MaterializationKey MaterializationWait kMaterializationWaitChunkSize)

variable {registryId : RegistryRef → UInt32} {s s' : State} {r : RegistryRef}
  {reg reg' : Registry} {t : ThreadId} {th th' : Thread} {x y token : UInt32}
  {wait : MaterializationWait} {a : Action} {grown : List ChunkId}

/-! ## The table of one registry -/

namespace Registry

/-- The invariant of a table. -/
structure Ok (reg : Registry) : Prop where
  capacity : reg.capacity = reg.chunks.length * kMaterializationWaitChunkSize
  nodup : reg.chunks.Nodup
  owned : ∀ chunk ∈ reg.chunks, chunk < reg.owned
  outside : ∀ chunk, chunk ∉ reg.chunks → ∀ i, (reg.cell chunk i).active = false

/-- A list of chunks that extends the published one, by chunks of the registry, as far as the
    token needs. -/
def Growth (reg : Registry) (token : UInt32) (grown : List ChunkId) : Prop :=
  token.toNat < grown.length * kMaterializationWaitChunkSize ∧ ∃ new, grown = reg.chunks ++ new ∧
    new.Nodup ∧ ∀ chunk ∈ new, chunk ∉ reg.chunks ∧ chunk < reg.owned

theorem ok_empty : ({} : Registry).Ok := ⟨rfl, List.nodup_nil, nofun, fun _ _ _ => rfl⟩

/-- A slot of the table has an address in one of its chunks. -/
theorem Ok.exists_address (h : reg.Ok) (hx : reg.HasWaitSlot x) :
    ∃ chunk ∈ reg.chunks, reg.address x =
      some (chunk, x.toNat % kMaterializationWaitChunkSize) := by
  have hlt : x.toNat / kMaterializationWaitChunkSize < reg.chunks.length :=
    (Nat.div_lt_iff_lt_mul (by decide)).mpr (h.capacity ▸ hx)
  refine ⟨_, List.getElem_mem hlt, ?_⟩
  rw [address, List.getElem?_eq_getElem hlt]
  rfl

theorem hasWaitSlot_of_address (h : reg.Ok) {p : ChunkId × ℕ} (hp : reg.address x = some p) :
    reg.HasWaitSlot x := by
  obtain ⟨chunk, hchunk, -⟩ := Option.map_eq_some_iff.mp hp
  obtain ⟨hlt, -⟩ := List.getElem?_eq_some_iff.mp hchunk
  rw [HasWaitSlot, h.capacity]
  exact (Nat.div_lt_iff_lt_mul (by decide)).mp hlt

theorem hasWaitSlot_of_waitSlot (h : reg.Ok) (hx : reg.waitSlot x = some wait) :
    reg.HasWaitSlot x := by
  obtain ⟨p, hp, -⟩ := Option.map_eq_some_iff.mp hx
  exact hasWaitSlot_of_address h hp

theorem mem_of_address {p : ChunkId × ℕ} (hp : reg.address x = some p) : p.1 ∈ reg.chunks := by
  obtain ⟨chunk, hchunk, rfl⟩ := Option.map_eq_some_iff.mp hp
  exact List.mem_of_getElem? hchunk

/-- Two tokens with one cell are one token. -/
theorem Ok.address_inj (h : reg.Ok) {p : ChunkId × ℕ} (hx : reg.address x = some p)
    (hy : reg.address y = some p) : x = y := by
  obtain ⟨chunk, hchunk, rfl⟩ := Option.map_eq_some_iff.mp hx
  obtain ⟨chunk', hchunk', heq⟩ := Option.map_eq_some_iff.mp hy
  obtain ⟨rfl, hmod⟩ := Prod.mk.inj heq
  obtain ⟨hlt, hget⟩ := List.getElem?_eq_some_iff.mp hchunk
  obtain ⟨hlt', hget'⟩ := List.getElem?_eq_some_iff.mp hchunk'
  have hdiv := (h.nodup.getElem_inj_iff).mp (hget.trans hget'.symm)
  refine UInt32.toNat_inj.mp ?_
  rw [← Nat.div_add_mod x.toNat kMaterializationWaitChunkSize,
    ← Nat.div_add_mod y.toNat kMaterializationWaitChunkSize, hdiv, hmod]

/-- A write to a slot changes this slot only. -/
theorem Ok.setWaitSlot (h : reg.Ok) (hset : reg.setWaitSlot x wait = some reg') :
    reg'.Ok ∧ reg'.chunks = reg.chunks ∧ reg'.capacity = reg.capacity ∧ reg'.owned = reg.owned ∧
      reg'.waitSlotsMutex = reg.waitSlotsMutex ∧
      ∀ y, reg'.waitSlot y = if y = x then some wait else reg.waitSlot y := by
  obtain ⟨p, hp, rfl⟩ := Option.map_eq_some_iff.mp hset
  refine ⟨⟨h.capacity, h.nodup, h.owned, fun chunk hchunk i => ?_⟩, rfl, rfl, rfl, rfl,
    fun y => ?_⟩
  · have hne : chunk ≠ p.1 := fun heq => hchunk (heq ▸ mem_of_address hp)
    change (update reg.cell p.1 _ chunk i).active = false
    rw [update_of_ne hne]
    exact h.outside chunk hchunk i
  · change (reg.address y).map (fun q => update reg.cell p.1 (update (reg.cell p.1) p.2 wait)
      q.1 q.2) = _
    split_ifs with hy
    · rw [hy, hp, Option.map_some, update_self, update_self]
    · cases hq : reg.address y with
      | none => rw [waitSlot, hq]; rfl
      | some q =>
        rw [waitSlot, hq, Option.map_some, Option.map_some]
        by_cases hchunk : q.1 = p.1
        · have hplace : q.2 ≠ p.2 :=
            fun heq => hy (h.address_inj hq (Prod.ext hchunk heq ▸ hp))
          rw [hchunk, update_self, update_of_ne hplace]
        · rw [update_of_ne hchunk]

/-- The list of the missing chunks. -/
theorem Ok.growth (h : reg.Ok) (hsmall : ¬ token.toNat + 1 ≤ reg.capacity) :
    (reg.allocate t token).Growth token (reg.grown token) := by
  have hcapacity := h.capacity
  refine ⟨?_, _, rfl, List.nodup_range' .., fun chunk hchunk => ?_⟩
  · rw [grown, List.length_append, List.length_range']
    simp only [requiredChunkCount, kMaterializationWaitChunkSize] at *
    omega
  · rw [List.mem_range'_1] at hchunk
    exact ⟨fun hold => absurd (h.owned chunk hold) (Nat.not_lt.mpr hchunk.1), hchunk.2⟩

theorem Ok.allocate (h : reg.Ok) : (reg.allocate t token).Ok :=
  ⟨h.capacity, h.nodup, fun chunk hchunk => Nat.lt_of_lt_of_le (h.owned chunk hchunk)
    (Nat.le_add_right _ _), h.outside⟩

/-- The growth keeps every slot, and new slots are inactive. -/
theorem Ok.publish (h : reg.Ok) (hgrowth : reg.Growth token grown) :
    (reg.publish token grown).Ok ∧ (reg.publish token grown).HasWaitSlot token ∧
      (∀ x, reg.HasWaitSlot x → (reg.publish token grown).HasWaitSlot x ∧
        (reg.publish token grown).waitSlot x = reg.waitSlot x) ∧
      ∀ x wait, (reg.publish token grown).waitSlot x = some wait → wait.active →
        reg.waitSlot x = some wait := by
  obtain ⟨hlarge, new, rfl, hnodup, hnew⟩ := hgrowth
  unfold Registry.publish
  split_ifs with hcap
  · exact ⟨⟨h.capacity, h.nodup, h.owned, h.outside⟩, hcap, fun x hx => ⟨hx, rfl⟩,
      fun x wait hx _ => hx⟩
  · have hkeeps : ∀ x, reg.HasWaitSlot x →
        (reg.chunks ++ new)[x.toNat / kMaterializationWaitChunkSize]? =
          reg.chunks[x.toNat / kMaterializationWaitChunkSize]? := by
      intro x hx
      have hlt : x.toNat / kMaterializationWaitChunkSize < reg.chunks.length :=
        (Nat.div_lt_iff_lt_mul (by decide)).mpr (h.capacity ▸ hx)
      exact List.getElem?_append_left hlt
    refine ⟨⟨rfl, ?_, fun chunk hchunk => ?_, fun chunk hchunk => ?_⟩, hlarge, fun x hx => ⟨?_, ?_⟩,
      fun x wait hx hactive => ?_⟩
    · exact List.nodup_append.mpr ⟨h.nodup, hnodup,
        fun c hc d hd heq => (hnew d hd).1 (heq ▸ hc)⟩
    · rcases List.mem_append.mp hchunk with hold | hchunk
      · exact h.owned chunk hold
      · exact (hnew chunk hchunk).2
    · exact h.outside chunk fun hold => hchunk (List.mem_append_left _ hold)
    · have hx' : x.toNat < reg.chunks.length * kMaterializationWaitChunkSize := h.capacity ▸ hx
      change x.toNat < (reg.chunks ++ new).length * kMaterializationWaitChunkSize
      rw [List.length_append, Nat.add_mul]
      exact Nat.lt_add_right _ hx'
    · simp only [waitSlot, address]
      rw [hkeeps x hx]
    · by_cases hold : reg.HasWaitSlot x
      · simp only [waitSlot, address] at hx ⊢
        rwa [hkeeps x hold] at hx
      · -- The cell of a new slot is in a new chunk.
        obtain ⟨p, hp, rfl⟩ := Option.map_eq_some_iff.mp hx
        obtain ⟨chunk, hchunk, rfl⟩ := Option.map_eq_some_iff.mp hp
        have hge : reg.chunks.length ≤ x.toNat / kMaterializationWaitChunkSize := by
          refine Nat.le_of_not_lt fun hlt => hold ?_
          rw [HasWaitSlot, h.capacity]
          exact (Nat.div_lt_iff_lt_mul (by decide)).mp hlt
        simp only at hchunk
        rw [List.getElem?_append_right hge] at hchunk
        have hinactive := h.outside chunk (hnew chunk (List.mem_of_getElem? hchunk)).1
        exact absurd hactive (by rw [hinactive]; nofun)

end Registry

/-! ## The tables of a state -/

/-- The thread waits, or is about to claim, on the registry. -/
def Thread.NeedsSlot (th : Thread) (r : RegistryRef) : Prop :=
  th.pc = .ensured r ∨ ∃ key, th.pc = .waiting r key

/-- The invariant of the tables of all registries. -/
structure Tables (s : State) : Prop where
  fresh : ∀ r, s.created ≤ r → s.registries r = none
  known : ∀ t th r, s.threads t = some th → th.NeedsSlot r ∨ (∃ grown, th.pc = .growing r grown) →
    r < s.created
  ok : ∀ r reg, s.registries r = some reg → reg.Ok
  growing : ∀ t th r grown, s.threads t = some th → th.pc = .growing r grown →
    ∀ reg, s.registries r = some reg →
      reg.waitSlotsMutex = some t ∧ reg.Growth th.token grown
  ensured : ∀ t th r, s.threads t = some th → th.NeedsSlot r →
    ∀ reg, s.registries r = some reg → reg.HasWaitSlot th.token
  active : ∀ r reg x wait, s.registries r = some reg → reg.waitSlot x = some wait →
    wait.active → ∃ t th key, s.threads t = some th ∧ th.token = x ∧ th.pc = .waiting r key

theorem setThread_self {o : Option Thread} : (s.setThread t o).threads t = o := update_self ..

theorem setThread_of_ne {o : Option Thread} {u : ThreadId} (h : u ≠ t) :
    (s.setThread t o).threads u = s.threads u := update_of_ne h ..

theorem setRegistry_self {o : Option Registry} : (s.setRegistry r o).registries r = o :=
  update_self ..

theorem setRegistry_of_ne {o : Option Registry} {r' : RegistryRef} (h : r' ≠ r) :
    (s.setRegistry r o).registries r' = s.registries r' := update_of_ne h ..

theorem setThread_same (ht : s.threads t = some th) : s.setThread t (some th) = s := by
  rw [State.setThread, ← ht, update_eq_self]

/-! ## What the steps of a thread do -/

theorem materializationThreadToken_snd (s : State) (th : Thread) :
    ∃ nextToken freeTokens, (materializationThreadToken s th).2 =
      { s with nextToken := nextToken, freeTokens := freeTokens } := by
  unfold materializationThreadToken
  split_ifs
  · exact ⟨_, _, rfl⟩
  · split <;> exact ⟨_, _, rfl⟩

theorem note_cases {memory : Bool} (hs : threadStep registryId s t th (.note t memory) = some s') :
    ∃ r, th.pc = .noting r ∧ ∃ registered pc,
      s' = s.setThread t (some { th with registered := registered, pc := pc }) ∧
        (pc = .ensuring r ∨ pc = .idle) := by
  unfold threadStep at hs
  cases hpc : th.pc with
  | noting r =>
    refine ⟨r, rfl, ?_⟩
    simp only [hpc] at hs
    split_ifs at hs
    · exact ⟨th.registered, _, (Option.some.inj hs).symm, .inl rfl⟩
    · exact ⟨_, _, (Option.some.inj hs).symm, .inl rfl⟩
    · exact ⟨th.registered, _, (Option.some.inj hs).symm, .inr rfl⟩
  | _ =>
    rw [hpc] at hs
    cases hs

variable (registryId) in
theorem ensure_cases {memory : Bool}
    (hs : threadStep registryId s t th (.ensure t memory) = some s') :
    ∃ r reg, th.pc = .ensuring r ∧ s.registries r = some reg ∧ reg.waitSlotsMutex = none ∧
      ((reg.HasWaitSlot th.token ∧ s' = s.setThread t (some { th with pc := .ensured r })) ∨
        (¬th.token.toNat + 1 ≤ reg.capacity ∧
          s' = (s.setRegistry r (some (reg.allocate t th.token))).setThread t
            (some { th with pc := .growing r (reg.grown th.token) })) ∨
        s' = s.setThread t (some { th with pc := .idle })) := by
  unfold threadStep at hs
  cases hpc : th.pc with
  | ensuring r =>
    simp only [hpc] at hs
    obtain ⟨reg, hreg, hs⟩ := Option.bind_eq_some_iff.mp hs
    refine ⟨r, reg, rfl, hreg, ?_⟩
    split_ifs at hs with hmutex hlarge
    · exact ⟨not_not.mp hmutex, .inl ⟨hlarge, (Option.some.inj hs).symm⟩⟩
    · exact ⟨not_not.mp hmutex, .inr (.inl ⟨hlarge, (Option.some.inj hs).symm⟩)⟩
    · exact ⟨not_not.mp hmutex, .inr (.inr (Option.some.inj hs).symm)⟩
  | _ =>
    rw [hpc] at hs
    cases hs

variable (registryId) in
theorem publish_cases (hs : threadStep registryId s t th (.publish t) = some s') :
    ∃ r grown reg, th.pc = .growing r grown ∧ s.registries r = some reg ∧
      s' = (s.setRegistry r (some (reg.publish th.token grown))).setThread t
        (some { th with pc := .ensured r }) := by
  unfold threadStep at hs
  cases hpc : th.pc with
  | growing r grown =>
    simp only [hpc] at hs
    obtain ⟨reg, hreg, hs⟩ := Option.map_eq_some_iff.mp hs
    exact ⟨r, grown, reg, rfl, hreg, hs.symm⟩
  | _ =>
    rw [hpc] at hs
    cases hs

variable (registryId) in
theorem claim_cases {wait : Option MaterializationKey}
    (hs : threadStep registryId s t th (.claim t wait) = some s') :
    ∃ r reg, th.pc = .ensured r ∧ s.registries r = some reg ∧
      ((∃ reg', reg.setWaitSlot th.token {} = some reg' ∧
          s' = (s.setRegistry r (some reg')).setThread t (some { th with pc := .idle })) ∨
        ∃ key reg', reg.setWaitSlot th.token ⟨key, true⟩ = some reg' ∧
          s' = (s.setRegistry r (some reg')).setThread t
            (some { th with pc := .waiting r key })) := by
  unfold threadStep at hs
  cases hpc : th.pc with
  | ensured r =>
    simp only [hpc] at hs
    obtain ⟨reg, hreg, hs⟩ := Option.bind_eq_some_iff.mp hs
    refine ⟨r, reg, rfl, hreg, ?_⟩
    cases wait with
    | none =>
      obtain ⟨reg', hset, hs⟩ := Option.map_eq_some_iff.mp hs
      exact .inl ⟨reg', hset, hs.symm⟩
    | some key =>
      obtain ⟨reg', hset, hs⟩ := Option.map_eq_some_iff.mp hs
      exact .inr ⟨key, reg', hset, hs.symm⟩
  | _ =>
    rw [hpc] at hs
    cases hs

variable (registryId) in
theorem wake_cases {again : Bool}
    (hs : threadStep registryId s t th (.wake t again) = some s') :
    ∃ r key reg, th.pc = .waiting r key ∧ s.registries r = some reg ∧
      ((∃ reg', reg.setWaitSlot th.token ⟨key, true⟩ = some reg' ∧
          s' = s.setRegistry r (some reg')) ∨
        ∃ (wait : MaterializationWait) (reg' : Registry),
          reg.setWaitSlot th.token { wait with active := false } = some reg' ∧
          s' = (s.setRegistry r (some reg')).setThread t (some { th with pc := .idle })) := by
  unfold threadStep at hs
  cases hpc : th.pc with
  | waiting r key =>
    simp only [hpc] at hs
    obtain ⟨reg, hreg, hs⟩ := Option.bind_eq_some_iff.mp hs
    obtain ⟨wait, -, hs⟩ := Option.bind_eq_some_iff.mp hs
    refine ⟨r, key, reg, rfl, hreg, ?_⟩
    split_ifs at hs with hagain
    · obtain ⟨reg', hset, hs⟩ := Option.map_eq_some_iff.mp hs
      exact .inl ⟨reg', hset, hs.symm⟩
    · obtain ⟨reg', hset, hs⟩ := Option.map_eq_some_iff.mp hs
      exact .inr ⟨wait, reg', hset, hs.symm⟩
  | _ =>
    rw [hpc] at hs
    cases hs

variable (registryId) in
theorem clear_cases (hs : threadStep registryId s t th (.clear t) = some s') :
    ∃ r rest, th.pc = .exiting (r :: rest) ∧
      (((∀ reg, s.registries r = some reg →
            ¬(th.token ≠ kNoMaterializationThreadToken ∧ reg.HasWaitSlot th.token)) ∧
          s' = s.setThread t (some { th with pc := .exiting rest })) ∨
        ∃ reg reg', s.registries r = some reg ∧ reg.setWaitSlot th.token {} = some reg' ∧
          s' = (s.setRegistry r (some reg')).setThread t
            (some { th with pc := .exiting rest })) := by
  unfold threadStep at hs
  cases hpc : th.pc with
  | exiting rest =>
    cases rest with
    | nil => simp only [hpc] at hs; cases hs
    | cons r rest =>
      simp only [hpc] at hs
      obtain ⟨s₁, hclear, rfl⟩ := Option.map_eq_some_iff.mp hs
      -- A registry that is gone, or has no slot for the token, is passed over.
      refine ⟨r, rest, rfl, ?_⟩
      unfold clearMaterializationWaitSlot at hclear
      cases hreg : s.registries r with
      | none =>
        simp only [hreg] at hclear
        obtain rfl := Option.some.inj hclear
        exact .inl ⟨fun reg hreg' => by simp at hreg', rfl⟩
      | some reg =>
        simp only [hreg] at hclear
        split_ifs at hclear with hslot
        · obtain ⟨reg', hset, rfl⟩ := Option.map_eq_some_iff.mp hclear
          exact .inr ⟨reg, reg', rfl, hset, rfl⟩
        · obtain rfl := Option.some.inj hclear
          exact .inl ⟨fun reg' hreg' => Option.some.inj hreg' ▸ hslot, rfl⟩
  | _ =>
    rw [hpc] at hs
    cases hs

variable (registryId) in
theorem recycle_cases {memory : Bool}
    (hs : threadStep registryId s t th (.recycle t memory) = some s') :
    th.pc = .exiting [] ∧ ∃ freeTokens, (freeTokens = s.freeTokens ∨
        (th.token ≠ kNoMaterializationThreadToken ∧ freeTokens = th.token :: s.freeTokens)) ∧
      s' = { s with nextToken := s.nextToken, freeTokens := freeTokens }.setThread t none := by
  unfold threadStep at hs
  cases hpc : th.pc with
  | exiting rest =>
    cases rest with
    | nil =>
      simp only [hpc] at hs
      refine ⟨rfl, _, ?_, (Option.some.inj hs).symm⟩
      split_ifs with hgiven
      · exact .inr ⟨hgiven.1, rfl⟩
      · exact .inl rfl
    | cons r rest => simp only [hpc] at hs; cases hs
  | _ =>
    rw [hpc] at hs
    cases hs

theorem step_cases (hs : step registryId s a = some s') :
    (a = .construct ∧
        s' = { s.setRegistry s.created (some {}) with created := s.created + 1 }) ∨
      (∃ r, a = .destroy r ∧ s' = s.setRegistry r none) ∨
      (∃ t, a = .start t ∧ s.threads t = none ∧ s' = s.setThread t (some {})) ∨
      ∃ t th, a.thread? = some t ∧ s.threads t = some th ∧
        threadStep registryId s t th a = some s' := by
  cases a with
  | construct => exact .inl ⟨rfl, (Option.some.inj hs).symm⟩
  | destroy r => exact .inr (.inl ⟨r, rfl, (Option.some.inj hs).symm⟩)
  | start t =>
    obtain ⟨hnone, hs⟩ := Option.ite_none_right_eq_some.mp hs
    exact .inr (.inr (.inl ⟨t, rfl, hnone, (Option.some.inj hs).symm⟩))
  | enter t | note t | ensure t | publish t | claim t | wake t | exit t | clear t | recycle t =>
    obtain ⟨th, ht, hs⟩ := Option.bind_eq_some_iff.mp hs
    exact .inr (.inr (.inr ⟨t, th, rfl, ht, hs⟩))

/-! ## The step lemma -/

namespace Tables

theorem initial : Tables {} :=
  ⟨fun _ _ => rfl, nofun, nofun, nofun, nofun, nofun⟩

/-- The tables do not depend on the tokens that are free. -/
theorem withTokens (h : Tables s) (nextToken : UInt32) (freeTokens : List UInt32) :
    Tables { s with nextToken := nextToken, freeTokens := freeTokens } :=
  ⟨h.fresh, h.known, h.ok, h.growing, h.ensured, h.active⟩

theorem lt_created (h : Tables s) (hreg : s.registries r = some reg) : r < s.created := by
  refine Nat.lt_of_not_le fun hle => ?_
  rw [h.fresh r hle] at hreg
  cases hreg

/-- A thread that does not wait goes on without an update of a table. -/
theorem setThread (h : Tables s) {o : Option Thread}
    (hold : ∀ th, s.threads t = some th → ∀ r key, th.pc ≠ .waiting r key)
    (hnew : ∀ th, o = some th → (∀ r grown, th.pc ≠ .growing r grown) ∧
      ∀ r, th.NeedsSlot r → ∃ reg, s.registries r = some reg ∧ reg.HasWaitSlot th.token) :
    Tables (s.setThread t o) := by
  refine ⟨h.fresh, fun u thu r hu hat => ?_, h.ok, fun u thu r grown hu hpc => ?_,
    fun u thu r hu hneeds reg hr => ?_, fun r reg x wait hr hx hactive => ?_⟩
  · by_cases hut : u = t
    · rw [hut, setThread_self] at hu
      rcases hat with hneeds | ⟨grown, hpc⟩
      · obtain ⟨reg, hr, -⟩ := (hnew thu hu).2 r hneeds
        exact h.lt_created hr
      · exact absurd hpc ((hnew thu hu).1 r grown)
    · rw [setThread_of_ne hut] at hu
      exact h.known u thu r hu hat
  · by_cases hut : u = t
    · rw [hut, setThread_self] at hu
      exact absurd hpc ((hnew thu hu).1 r grown)
    · rw [setThread_of_ne hut] at hu
      exact h.growing u thu r grown hu hpc
  · by_cases hut : u = t
    · rw [hut, setThread_self] at hu
      obtain ⟨reg', hr', hhas⟩ := (hnew thu hu).2 r hneeds
      obtain rfl := Option.some.inj (hr'.symm.trans hr)
      exact hhas
    · rw [setThread_of_ne hut] at hu
      exact h.ensured u thu r hu hneeds reg hr
  -- A waiting thread does not come or go, so it is another one.
  · obtain ⟨u, thu, key, hu, htoken, hpc⟩ := h.active r reg x wait hr hx hactive
    have hut : u ≠ t := by
      rintro rfl
      exact hold thu hu r key hpc
    exact ⟨u, thu, key, (setThread_of_ne hut).trans hu, htoken, hpc⟩

/-- A thread that does not wait goes on, and updates no table. -/
theorem moveOn (h : Tables s) (ht : s.threads t = some th)
    (hold : ∀ r key, th.pc ≠ .waiting r key) (hgrowing : ∀ r grown, th'.pc ≠ .growing r grown)
    (hneeds : ∀ r, th'.NeedsSlot r → ∃ reg, s.registries r = some reg ∧
      reg.HasWaitSlot th'.token) :
    Tables (s.setThread t (some th')) := by
  refine h.setThread (fun th₁ ht₁ => ?_) fun th₁ hth₁ => ?_
  · obtain rfl := Option.some.inj (ht.symm.trans ht₁)
    exact hold
  · obtain rfl := Option.some.inj hth₁
    exact ⟨hgrowing, hneeds⟩

/-- A new registry has an empty table. -/
theorem construct (h : Tables s) :
    Tables { s.setRegistry s.created (some {}) with created := s.created + 1 } := by
  have hold : ∀ {r reg}, update s.registries s.created (some {}) r = some reg →
      s.registries r = some reg ∨ reg = {} := by
    intro r reg hr
    by_cases hrr : r = s.created
    · rw [hrr, update_self] at hr
      exact .inr (Option.some.inj hr).symm
    · rw [update_of_ne hrr] at hr
      exact .inl hr
  have hne : ∀ {r}, r < s.created → ∀ {reg}, update s.registries s.created (some {}) r = some reg →
      s.registries r = some reg := by
    intro r hr reg hget
    rwa [update_of_ne (Nat.ne_of_lt hr)] at hget
  refine ⟨fun r hr => ?_, fun t th r ht hat => Nat.lt_succ_of_lt (h.known t th r ht hat),
    fun r reg hr => ?_, fun t th r grown ht hpc reg hr => ?_, fun t th r ht hneeds reg hr => ?_,
    fun r reg x wait hr hx hactive => ?_⟩
  · refine (update_of_ne (Nat.ne_of_gt hr) ..).trans (h.fresh r (Nat.le_of_succ_le hr))
  · rcases hold hr with hr | rfl
    · exact h.ok r reg hr
    · exact Registry.ok_empty
  · exact h.growing t th r grown ht hpc reg (hne (h.known t th r ht (.inr ⟨grown, hpc⟩)) hr)
  · exact h.ensured t th r ht hneeds reg (hne (h.known t th r ht (.inl hneeds)) hr)
  · rcases hold hr with hr | rfl
    · exact h.active r reg x wait hr hx hactive
    · cases hx

/-- A registry is destroyed. -/
theorem destroy (h : Tables s) : Tables (s.setRegistry r none) := by
  have hold : ∀ {r' reg}, update s.registries r none r' = some reg →
    s.registries r' = some reg := by
    intro r' reg hr
    by_cases hrr : r' = r
    · rw [hrr, update_self] at hr
      cases hr
    · rwa [update_of_ne hrr] at hr
  refine ⟨fun r' hr' => ?_, h.known, fun r' reg hr => h.ok r' reg (hold hr),
    fun t th r' grown ht hpc reg hr => h.growing t th r' grown ht hpc reg (hold hr),
    fun t th r' ht hneeds reg hr => h.ensured t th r' ht hneeds reg (hold hr),
    fun r' reg x wait hr => h.active r' reg x wait (hold hr)⟩
  by_cases hrr : r' = r
  · exact hrr ▸ setRegistry_self
  · exact (setRegistry_of_ne hrr).trans (h.fresh r' hr')

/-- A thread goes on, and the table of one registry is updated. -/
theorem setRegistry (h : Tables s) (ht : s.threads t = some th)
    (hreg : s.registries r = some reg) (hok : reg'.Ok)
    (hhas : ∀ x, reg.HasWaitSlot x → reg'.HasWaitSlot x)
    (hother : ∀ u token grown, u ≠ t → reg.waitSlotsMutex = some u → reg.Growth token grown →
      reg'.waitSlotsMutex = some u ∧ reg'.Growth token grown)
    (hgrowing : ∀ r' grown, th'.pc = .growing r' grown →
      r' = r ∧ reg'.waitSlotsMutex = some t ∧ reg'.Growth th'.token grown)
    (hneeds : ∀ r', th'.NeedsSlot r' → r' = r ∧ reg'.HasWaitSlot th'.token)
    (hwaiting : ∀ r' key, th.pc = .waiting r' key → r' = r)
    (hactive : ∀ x wait, reg'.waitSlot x = some wait → wait.active →
      (th'.token = x ∧ ∃ key, th'.pc = .waiting r key) ∨
        (reg.waitSlot x = some wait ∧ (th.token = x → ∀ key, th.pc ≠ .waiting r key))) :
    Tables ((s.setRegistry r (some reg')).setThread t (some th')) := by
  have hr := h.lt_created hreg
  refine ⟨fun r' hr' => ?_, fun u thu r' hu hat => ?_, fun r' reg₁ hr' => ?_,
    fun u thu r' grown hu hpc reg₁ hr' => ?_,
    fun u thu r' hu hpc reg₁ hr' => ?_, fun r' reg₁ x wait hr' hx hx' => ?_⟩
  -- One registry and one thread have changed; every other pair is as before.
  · exact (setRegistry_of_ne (Nat.ne_of_gt (Nat.lt_of_lt_of_le hr hr'))).trans (h.fresh r' hr')
  · by_cases hut : u = t
    · subst hut
      rw [setThread_self] at hu
      obtain rfl := Option.some.inj hu
      rcases hat with hat | ⟨grown, hpc⟩
      · obtain ⟨rfl, -⟩ := hneeds r' hat
        exact hr
      · obtain ⟨rfl, -⟩ := hgrowing r' grown hpc
        exact hr
    · rw [setThread_of_ne hut] at hu
      exact h.known u thu r' hu hat
  · by_cases hrr : r' = r
    · subst hrr
      obtain rfl := Option.some.inj (setRegistry_self.symm.trans hr')
      exact hok
    · exact h.ok r' reg₁ ((setRegistry_of_ne hrr).symm.trans hr')
  · by_cases hut : u = t
    · subst hut
      rw [setThread_self] at hu
      obtain rfl := Option.some.inj hu
      obtain ⟨rfl, hself⟩ := hgrowing r' grown hpc
      obtain rfl := Option.some.inj (setRegistry_self.symm.trans hr')
      exact hself
    · rw [setThread_of_ne hut] at hu
      by_cases hrr : r' = r
      · subst hrr
        obtain rfl := Option.some.inj (setRegistry_self.symm.trans hr')
        obtain ⟨hmutex, hgrowth⟩ := h.growing u thu r' grown hu hpc reg hreg
        exact hother u thu.token grown hut hmutex hgrowth
      · exact h.growing u thu r' grown hu hpc reg₁ ((setRegistry_of_ne hrr).symm.trans hr')
  · by_cases hut : u = t
    · subst hut
      rw [setThread_self] at hu
      obtain rfl := Option.some.inj hu
      obtain ⟨rfl, hself⟩ := hneeds r' hpc
      obtain rfl := Option.some.inj (setRegistry_self.symm.trans hr')
      exact hself
    · rw [setThread_of_ne hut] at hu
      by_cases hrr : r' = r
      · subst hrr
        obtain rfl := Option.some.inj (setRegistry_self.symm.trans hr')
        exact hhas _ (h.ensured u thu r' hu hpc reg hreg)
      · exact h.ensured u thu r' hu hpc reg₁ ((setRegistry_of_ne hrr).symm.trans hr')
  -- An active slot belongs to this thread now, or to another one as before.
  · have hold : (r' = r ∧ th'.token = x ∧ ∃ key, th'.pc = .waiting r key) ∨
        ∃ u thu key, u ≠ t ∧ s.threads u = some thu ∧ thu.token = x ∧ thu.pc = .waiting r' key := by
      by_cases hrr : r' = r
      · subst hrr
        obtain rfl := Option.some.inj (setRegistry_self.symm.trans hr')
        rcases hactive x wait hx hx' with hself | ⟨hx, hnot⟩
        · exact .inl ⟨rfl, hself⟩
        · obtain ⟨u, thu, key, hu, htoken, hpc⟩ := h.active r' reg x wait hreg hx hx'
          refine .inr ⟨u, thu, key, ?_, hu, htoken, hpc⟩
          rintro rfl
          obtain rfl := Option.some.inj (ht.symm.trans hu)
          exact hnot htoken key hpc
      · obtain ⟨u, thu, key, hu, htoken, hpc⟩ := h.active r' reg₁ x wait
          ((setRegistry_of_ne hrr).symm.trans hr') hx hx'
        refine .inr ⟨u, thu, key, ?_, hu, htoken, hpc⟩
        rintro rfl
        obtain rfl := Option.some.inj (ht.symm.trans hu)
        exact hrr (hwaiting r' key hpc)
    rcases hold with ⟨rfl, htoken, key, hpc⟩ | ⟨u, thu, key, hut, hu, htoken, hpc⟩
    · exact ⟨t, th', key, setThread_self, htoken, hpc⟩
    · exact ⟨u, thu, key, (setThread_of_ne hut).trans hu, htoken, hpc⟩

/-- A thread that has no other edge writes its slot and goes on. -/
theorem writeSlot (h : Tables s) (ht : s.threads t = some th)
    (hreg : s.registries r = some reg) (hset : reg.setWaitSlot th.token wait = some reg')
    (hwaiting : ∀ r' key, th.pc = .waiting r' key → r' = r) (htoken : th'.token = th.token)
    (hgrowing : ∀ r' grown, th'.pc ≠ .growing r' grown)
    (hneeds : ∀ r', th'.NeedsSlot r' → r' = r)
    (hactive : wait.active → ∃ key, th'.pc = .waiting r key) :
    Tables ((s.setRegistry r (some reg')).setThread t (some th')) := by
  have hok := h.ok r reg hreg
  obtain ⟨hok', hchunks, hcapacity, howned, hmutex, hslots⟩ := hok.setWaitSlot hset
  have hhas : ∀ x, reg.HasWaitSlot x → reg'.HasWaitSlot x := by
    intro x hx
    rwa [Registry.HasWaitSlot, hcapacity]
  have hself : reg.HasWaitSlot th.token := by
    obtain ⟨p, hp, -⟩ := Option.map_eq_some_iff.mp hset
    exact Registry.hasWaitSlot_of_address hok hp
  refine h.setRegistry ht hreg hok' hhas (fun u token grown _ hu hgrowth => ?_)
    (fun r' grown hpc => absurd hpc (hgrowing r' grown))
    (fun r' hpc => ⟨hneeds r' hpc, htoken ▸ hhas _ hself⟩) hwaiting fun x w hx hx' => ?_
  · rw [hmutex, Registry.Growth, hchunks, howned]
    exact ⟨hu, hgrowth⟩
  · rw [hslots x] at hx
    split_ifs at hx with hxt
    · obtain rfl := Option.some.inj hx
      exact .inl ⟨htoken.trans hxt.symm, hactive hx'⟩
    · exact .inr ⟨hx, fun heq => absurd heq.symm hxt⟩

/-- A step of a thread. -/
theorem threadStep (h : Tables s) (ht : s.threads t = some th) (ha : a.thread? = some t)
    (hs : threadStep registryId s t th a = some s') : Tables s' := by
  cases a with
  | construct | destroy r | start u => cases hs
  | enter u r =>
    obtain ⟨⟨hpc, -⟩, hs⟩ := Option.ite_none_right_eq_some.mp hs
    obtain ⟨nextToken, freeTokens, heq⟩ := materializationThreadToken_snd s th
    obtain rfl := Option.some.inj hs
    change Tables ((materializationThreadToken s th).2.setThread t _)
    rw [heq]
    exact (h.withTokens nextToken freeTokens).moveOn ht (fun r key hw => by simp [hpc] at hw)
      (by simp) (by simp [Thread.NeedsSlot])
  | note u memory =>
    obtain ⟨r, hpc, registered, pc, rfl, hnext⟩ := note_cases hs
    refine h.moveOn ht (fun r' key hw => by simp [hpc] at hw) ?_ ?_ <;>
      rcases hnext with rfl | rfl <;> simp [Thread.NeedsSlot]
  | ensure u memory =>
    obtain ⟨r, reg, hpc, hreg, hmutex, hnext⟩ := ensure_cases registryId hs
    have hwaiting : ∀ r' key, th.pc ≠ .waiting r' key := fun r' key hw => by simp [hpc] at hw
    rcases hnext with ⟨hlarge, rfl⟩ | ⟨hsmall, rfl⟩ | rfl
    · refine h.moveOn ht hwaiting (by simp) fun r' hneeds => ?_
      obtain rfl : r' = r := by simpa [Thread.NeedsSlot, eq_comm] using hneeds
      exact ⟨reg, hreg, hlarge⟩
    · -- The mutex was free, so no other thread has a list to publish.
      refine h.setRegistry ht hreg (h.ok r reg hreg).allocate (fun x hx => hx)
        (fun u' token grown _ hheld => ?_) (fun r' grown hgrowing => ?_)
        (fun r' hneeds => by simp [Thread.NeedsSlot] at hneeds)
        (fun r' key hw => absurd hw (hwaiting r' key))
        fun x wait hx _ => .inr ⟨hx, fun _ key => hwaiting r key⟩
      · rw [hmutex] at hheld
        cases hheld
      · obtain ⟨rfl, rfl⟩ := Pc.growing.inj hgrowing
        exact ⟨rfl, rfl, (h.ok r reg hreg).growth hsmall⟩
    · exact h.moveOn ht hwaiting (by simp) (by simp [Thread.NeedsSlot])
  | publish u =>
    obtain ⟨r, grown, reg, hpc, hreg, rfl⟩ := publish_cases registryId hs
    have hwaiting : ∀ r' key, th.pc ≠ .waiting r' key := fun r' key hw => by simp [hpc] at hw
    obtain ⟨hmutex, hgrowth⟩ := h.growing t th r grown ht hpc reg hreg
    obtain ⟨hok, hself, hkeeps, hactive⟩ := (h.ok r reg hreg).publish hgrowth
    refine h.setRegistry ht hreg hok (fun x hx => (hkeeps x hx).1)
      (fun u' token grown' hne hheld => ?_) (fun r' grown' hgrowing => by simp at hgrowing)
      (fun r' hneeds => ?_) (fun r' key hw => absurd hw (hwaiting r' key))
      fun x wait hx hx' => .inr ⟨hactive x wait hx hx', fun _ key => hwaiting r key⟩
    · -- The thread itself holds the mutex.
      exact absurd (Option.some.inj (hheld.symm.trans hmutex)) hne
    · obtain rfl : r' = r := by simpa [Thread.NeedsSlot, eq_comm] using hneeds
      exact ⟨rfl, hself⟩
  | claim u wait =>
    obtain ⟨r, reg, hpc, hreg, hnext⟩ := claim_cases registryId hs
    have hwaiting : ∀ r' key, th.pc = .waiting r' key → r' = r := fun r' key hw => by
      simp [hpc] at hw
    rcases hnext with ⟨reg', hset, rfl⟩ | ⟨key, reg', hset, rfl⟩
    · exact h.writeSlot ht hreg hset hwaiting rfl (by simp) (by simp [Thread.NeedsSlot]) (by simp)
    · exact h.writeSlot ht hreg hset hwaiting rfl (by simp)
        (fun r' hneeds => by simpa [Thread.NeedsSlot, eq_comm] using hneeds) fun _ => ⟨key, rfl⟩
  | wake u again =>
    obtain ⟨r, key, reg, hpc, hreg, hnext⟩ := wake_cases registryId hs
    have hwaiting : ∀ r' key', th.pc = .waiting r' key' → r' = r := fun r' key' hw =>
      (Pc.waiting.inj (hpc.symm.trans hw)).1.symm
    rcases hnext with ⟨reg', hset, rfl⟩ | ⟨wait, reg', hset, rfl⟩
    · have hsame : (s.setRegistry r (some reg')).setThread t (some th) =
          s.setRegistry r (some reg') := setThread_same ht
      exact hsame ▸ h.writeSlot ht hreg hset hwaiting rfl (by simp [hpc])
        (fun r' hneeds => by simpa [Thread.NeedsSlot, hpc, eq_comm] using hneeds)
        fun _ => ⟨key, hpc⟩
    · exact h.writeSlot ht hreg hset hwaiting rfl (by simp) (by simp [Thread.NeedsSlot]) (by simp)
  | exit u order =>
    obtain ⟨⟨hpc, -⟩, hs⟩ := Option.ite_none_right_eq_some.mp hs
    obtain rfl := Option.some.inj hs
    exact h.moveOn ht (fun r key hw => by simp [hpc] at hw) (by simp) (by simp [Thread.NeedsSlot])
  | clear u =>
    obtain ⟨r, rest, hpc, hnext⟩ := clear_cases registryId hs
    have hwaiting : ∀ r' key, th.pc ≠ .waiting r' key := fun r' key hw => by simp [hpc] at hw
    rcases hnext with ⟨-, rfl⟩ | ⟨reg, reg', hreg, hset, rfl⟩
    · exact h.moveOn ht hwaiting (by simp) (by simp [Thread.NeedsSlot])
    · exact h.writeSlot ht hreg hset (fun r' key hw => absurd hw (hwaiting r' key)) rfl (by simp)
        (by simp [Thread.NeedsSlot]) (by simp)
  | recycle u memory =>
    obtain ⟨hpc, freeTokens, -, rfl⟩ := recycle_cases registryId hs
    refine (h.withTokens s.nextToken freeTokens).setThread (fun th' ht' r key hw => ?_) (by simp)
    obtain rfl := Option.some.inj (ht.symm.trans ht')
    simp [hpc] at hw

/-- A step of the process. -/
theorem step (h : Tables s) (hs : WaitSlots.step registryId s a = some s') : Tables s' := by
  rcases step_cases hs with ⟨-, rfl⟩ | ⟨r, -, rfl⟩ | ⟨t, -, hnone, rfl⟩ | ⟨t, th, ha, ht, hs⟩
  · exact h.construct
  · exact h.destroy
  · refine h.setThread (fun th ht => ?_) (by simp [Thread.NeedsSlot])
    rw [hnone] at ht
    cases ht
  · exact h.threadStep ht ha hs

end Tables

/-! ## What a step does to the slots -/

/-- The table of a registry that a step leaves there. -/
structure Keeps (reg reg' : Registry) (own : Option UInt32) : Prop where
  /-- The slots stay. -/
  hasWaitSlot : ∀ x, reg.HasWaitSlot x → reg'.HasWaitSlot x
  /-- Only the slot of the thread's own token may change. -/
  waitSlot : ∀ x, own ≠ some x → reg.HasWaitSlot x → reg'.waitSlot x = reg.waitSlot x

theorem Keeps.refl (own : Option UInt32) : Keeps reg reg own := ⟨fun _ h => h, fun _ _ _ => rfl⟩

theorem Keeps.setWaitSlot (h : reg.Ok) (hset : reg.setWaitSlot x wait = some reg') :
    Keeps reg reg' (some x) := by
  obtain ⟨-, -, hcapacity, -, -, hslots⟩ := h.setWaitSlot hset
  refine ⟨fun y hy => by rwa [Registry.HasWaitSlot, hcapacity], fun y hne _ => ?_⟩
  rw [hslots y, if_neg fun heq => hne (congrArg some heq.symm)]

/-- The slot that a step may write: only the last steps of a call and of an exit write one. -/
def Action.writes (th : Thread) : Action → Option UInt32
  | .claim _ _ | .wake _ _ | .clear _ => some th.token
  | _ => none

theorem Tables.keeps_threadStep (h : Tables s) (ht : s.threads t = some th)
    (ha : a.thread? = some t) (hs : WaitSlots.threadStep registryId s t th a = some s')
    (hreg : s.registries r = some reg) (hreg' : s'.registries r = some reg') :
    Keeps reg reg' (a.writes th) := by
  have hsame : s'.registries = s.registries → Keeps reg reg' (a.writes th) := by
    intro heq
    rw [heq, hreg] at hreg'
    obtain rfl := Option.some.inj hreg'
    exact .refl _
  -- One registry is updated: it is the one in question, or this one is as it was.
  have hone : ∀ {r₁ reg₁ reg₂}, s.registries r₁ = some reg₁ →
      s'.registries = update s.registries r₁ (some reg₂) → Keeps reg₁ reg₂ (a.writes th) →
      Keeps reg reg' (a.writes th) := by
    intro r₁ reg₁ reg₂ hr₁ heq hkeeps
    by_cases hrr : r = r₁
    · subst hrr
      rw [heq, update_self] at hreg'
      obtain rfl := Option.some.inj hreg'
      obtain rfl := Option.some.inj (hreg.symm.trans hr₁)
      exact hkeeps
    · rw [heq, update_of_ne hrr, hreg] at hreg'
      obtain rfl := Option.some.inj hreg'
      exact .refl _
  cases a with
  | construct | destroy r | start u => cases hs
  | enter u r =>
    obtain ⟨-, hs⟩ := Option.ite_none_right_eq_some.mp hs
    obtain ⟨nextToken, freeTokens, heq⟩ := materializationThreadToken_snd s th
    obtain rfl := Option.some.inj hs
    refine hsame ?_
    change (materializationThreadToken s th).2.registries = _
    rw [heq]
  | note u memory =>
    obtain ⟨r₁, -, registered, pc, rfl, -⟩ := note_cases hs
    exact hsame rfl
  | ensure u memory =>
    obtain ⟨r₁, reg₁, -, hr₁, -, hnext⟩ := ensure_cases registryId hs
    rcases hnext with ⟨-, rfl⟩ | ⟨-, rfl⟩ | rfl
    · exact hsame rfl
    · exact hone hr₁ rfl ⟨fun _ h => h, fun _ _ _ => rfl⟩
    · exact hsame rfl
  | publish u =>
    obtain ⟨r₁, grown, reg₁, hpc, hr₁, rfl⟩ := publish_cases registryId hs
    obtain ⟨-, -, hkeeps, -⟩ :=
      (h.ok r₁ reg₁ hr₁).publish (h.growing t th r₁ grown ht hpc reg₁ hr₁).2
    exact hone hr₁ rfl ⟨fun x hx => (hkeeps x hx).1, fun x _ hx => (hkeeps x hx).2⟩
  | claim u wait =>
    obtain ⟨r₁, reg₁, -, hr₁, hnext⟩ := claim_cases registryId hs
    rcases hnext with ⟨reg₂, hset, rfl⟩ | ⟨key, reg₂, hset, rfl⟩ <;>
      exact hone hr₁ rfl (.setWaitSlot (h.ok r₁ reg₁ hr₁) hset)
  | wake u again =>
    obtain ⟨r₁, key, reg₁, -, hr₁, hnext⟩ := wake_cases registryId hs
    rcases hnext with ⟨reg₂, hset, rfl⟩ | ⟨wait, reg₂, hset, rfl⟩ <;>
      exact hone hr₁ rfl (.setWaitSlot (h.ok r₁ reg₁ hr₁) hset)
  | exit u order =>
    obtain ⟨-, hs⟩ := Option.ite_none_right_eq_some.mp hs
    obtain rfl := Option.some.inj hs
    exact hsame rfl
  | clear u =>
    obtain ⟨r₁, rest, -, hnext⟩ := clear_cases registryId hs
    rcases hnext with ⟨-, rfl⟩ | ⟨reg₁, reg₂, hr₁, hset, rfl⟩
    · exact hsame rfl
    · exact hone hr₁ rfl (.setWaitSlot (h.ok r₁ reg₁ hr₁) hset)
  | recycle u memory =>
    obtain ⟨-, freeTokens, -, rfl⟩ := recycle_cases registryId hs
    exact hsame rfl

/-- What a step does to the table of a registry that is there before and after it. -/
theorem Tables.keeps (h : Tables s) (hs : WaitSlots.step registryId s a = some s')
    (hreg : s.registries r = some reg) (hreg' : s'.registries r = some reg') :
    Keeps reg reg' ((a.thread?.bind s.threads).bind a.writes) := by
  rcases step_cases hs with ⟨rfl, rfl⟩ | ⟨r₁, rfl, rfl⟩ | ⟨t, rfl, -, rfl⟩ | ⟨t, th, ha, ht, hs⟩
  · -- A new registry is no old one.
    have hne : r ≠ s.created := Nat.ne_of_lt (h.lt_created hreg)
    obtain rfl : reg = reg' := Option.some.inj <|
      hreg.symm.trans ((update_of_ne hne ..).symm.trans hreg')
    exact .refl _
  · by_cases hrr : r = r₁
    · rw [hrr, setRegistry_self] at hreg'
      cases hreg'
    · rw [setRegistry_of_ne hrr, hreg] at hreg'
      obtain rfl := Option.some.inj hreg'
      exact .refl _
  · obtain rfl : reg = reg' := Option.some.inj (hreg.symm.trans hreg')
    exact .refl _
  · rw [ha, Option.bind_some, ht, Option.bind_some]
    exact h.keeps_threadStep ht ha hs hreg hreg'

theorem tables_of_reachable (h : (machine registryId).Reachable s) : Tables s :=
  h.invariant (fun _ hs => hs ▸ .initial) fun _ _ _ hinv hs => hinv.step hs

end Ctorium.WaitSlots
