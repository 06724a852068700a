import Ctorium.IdentifierCaches.Invariant

/-!
# The identifier caches are transparent

* `Inv.run`: along a run the memory grows, so an identifier that a table gave stays.
* `Sound.answered`: a call returns what the tables say without a cache, or a negative answer
  that they gave when the call began.
* `Inv.returns`: every call can return, by steps of the threads alone; the lock is left after
  finitely many steps of its holder (`Inv.leavesLock`).
* `caches_transparent` puts this together.
-/

namespace Ctorium.IdentifierCaches

open Function

variable {p : Program} {s s' s₁ : State} {r : RegistryRef} {T : BeanType} {x id nid : UInt32}
  {site : Site} {t : ThreadId} {th : Thread} {pc pc' : Pc} {before result : Result} {back : ℕ}
  {luck : Bool} {c : Call} {a : Action} {as : List Action}

/-! ## Runs -/

theorem Inv.run (h : Inv p s) (hfew : (machine p).Along FewRegistries s as)
    (hrun : (machine p).run s as = some s') : Onward p s s' := by
  induction as generalizing s with
  | nil =>
    obtain rfl := Option.some.inj hrun
    exact ⟨h, Grows.refl s⟩
  | cons a as ih =>
    obtain ⟨s₁, hs, hrun⟩ := Option.bind_eq_some_iff.mp hrun
    have hstep := h.step hfew.1 hs
    have hrest := ih hstep.inv (hfew.tail hs) hrun
    exact ⟨hrest.inv, hstep.grows.trans hrest.grows⟩

theorem found_goOn {slot : Option UInt32} :
    ∃ (s₁ : State) (pc : Pc), found s t th r slot id = s₁.goOn t th pc ∧
      s₁.threads = s.threads := by
  unfold found
  split
  · exact ⟨_, _, rfl, rfl⟩
  · split_ifs
    · exact ⟨_, _, rfl, rfl⟩
    · exact ⟨_, _, rfl, rfl⟩

/-- A step of a call moves its thread on, and no other one. -/
theorem callStep_goOn (hs : callStep p s t th back luck = some s') :
    ∃ (s₁ : State) (pc : Pc), s' = s₁.goOn t th pc ∧ s₁.threads = s.threads := by
  unfold callStep at hs
  cases hcall : th.call with
  | typeIdFor r T =>
    rw [hcall] at hs
    dsimp only at hs
    unfold typeStep at hs
    -- The two lookups end in `found`; every other point goes on by itself.
    split at hs
    case h_10 =>
      split at hs <;> obtain rfl := Option.some.inj hs
      · exact found_goOn
      · exact ⟨_, _, rfl, rfl⟩
    case h_11 =>
      obtain rfl := Option.some.inj hs
      exact found_goOn
    all_goals
      try dsimp only at hs
      try split_ifs at hs
      all_goals first
        | exact ⟨_, _, (Option.some.inj hs).symm, rfl⟩
        | cases hs
  | nameIdFor r site =>
    rw [hcall] at hs
    dsimp only at hs
    unfold nameStep at hs
    split at hs
    all_goals
      try dsimp only at hs
      try split_ifs at hs
      all_goals first
        | exact ⟨_, _, (Option.some.inj hs).symm, rfl⟩
        | cases hs

/-- A thread stays inside its call, with the same memory of its beginning, until it leaves. -/
theorem step_thread (hs : step p s a = some s') (ht : s.threads t = some th) (ha : a ≠ .leave t) :
    ∃ pc, s'.threads t = some { th with pc := pc } := by
  cases a with
  | construct =>
    obtain rfl := Option.some.inj hs
    exact ⟨th.pc, ht⟩
  | internType r index =>
    obtain ⟨-, ⟨⟩⟩ := Option.ite_none_right_eq_some.mp hs
    exact ⟨th.pc, ht⟩
  | freeze r =>
    obtain ⟨-, ⟨⟩⟩ := Option.ite_none_right_eq_some.mp hs
    exact ⟨th.pc, ht⟩
  | internName r name =>
    obtain ⟨-, ⟨⟩⟩ := Option.ite_none_right_eq_some.mp hs
    exact ⟨th.pc, ht⟩
  | call u c =>
    obtain ⟨⟨hu, -⟩, ⟨⟩⟩ := Option.ite_none_right_eq_some.mp hs
    refine ⟨th.pc, ?_⟩
    have htu : t ≠ u := by
      rintro rfl
      rw [ht] at hu
      cases hu
    exact (update_of_ne htu ..).trans ht
  | advance u back luck =>
    simp only [step] at hs
    cases hu : s.threads u with
    | none =>
      rw [hu] at hs
      cases hs
    | some thu =>
      rw [hu] at hs
      obtain ⟨s₁, pc, rfl, hthreads⟩ := callStep_goOn hs
      by_cases htu : t = u
      · subst htu
        obtain rfl := Option.some.inj (ht.symm.trans hu)
        exact ⟨pc, goOn_self⟩
      · exact ⟨th.pc, by rw [goOn_of_ne htu, hthreads, ht]⟩
  | leave u =>
    have htu : t ≠ u := fun heq => ha (heq ▸ rfl)
    simp only [step] at hs
    split at hs
    · obtain rfl := Option.some.inj hs
      exact ⟨th.pc, (update_of_ne htu ..).trans ht⟩
    · cases hs

theorem run_thread (hrun : (machine p).run s as = some s') (ht : s.threads t = some th)
    (hstays : Action.leave t ∉ as) : ∃ pc, s'.threads t = some { th with pc := pc } := by
  induction as generalizing s th with
  | nil =>
    obtain rfl := Option.some.inj hrun
    exact ⟨th.pc, ht⟩
  | cons a as ih =>
    obtain ⟨s₁, hs, hrun⟩ := Option.bind_eq_some_iff.mp hrun
    rw [List.mem_cons, not_or] at hstays
    obtain ⟨pc, hpc⟩ := step_thread hs ht (Ne.symm hstays.1)
    obtain ⟨pc', hpc'⟩ := ih hrun hpc hstays.2
    exact ⟨pc', hpc'⟩

/-! ## Answers -/

/-- What a thread returns, the tables say without a cache, now or, if the answer is a negative
    one, when the call began. -/
theorem Sound.answered {s₀ : State} (h : Sound p s th) (hpc : th.pc = .returned result)
    (hbefore : th.before = answer p s₀ th.call) :
    result = answer p s th.call ∨
      (th.call.looksUp ∧ result = answer p s₀ th.call ∧ Unknown result) := by
  have hpcs := h.pc
  cases hcall : th.call with
  -- The identifier that was found is that of the table now; one that was not found was unknown at
  -- the beginning of the call.
  | typeIdFor r T =>
    rw [hcall, hpc] at hpcs
    rw [hcall] at hbefore
    rcases hpcs with ⟨id, rfl, htype⟩ | ⟨rfl, hunknown⟩
    · exact .inl (congrArg Except.ok htype.2.symm)
    · refine .inr ⟨rfl, ?_, fun id hid => (Except.ok.inj hid).symm⟩
      exact congrArg Except.ok (hunknown _ hbefore).symm
  | nameIdFor r site =>
    rw [hcall, hpc] at hpcs
    rw [hcall] at hbefore
    rcases hpcs with ⟨nid, rfl, hname⟩ | ⟨hlookup, rfl, hunknown⟩
    · left
      cases hinterns : site.interns with
      | true =>
        obtain ⟨⟨id, hid, rfl⟩, -⟩ := hname
        simp only [answer, hinterns, if_true, Deferred.intern_of_lookup hid]
      | false =>
        simp only [answer, hinterns, Bool.false_eq_true, if_false]
        exact (hname.lookupName hinterns).symm
    · refine .inr ⟨by rw [Call.looksUp, hlookup]; rfl, ?_, (by rintro _ ⟨⟩)⟩
      simp only [answer, hlookup, Bool.false_eq_true, if_false] at hbefore ⊢
      -- Had the name been known at the beginning, the lookup would not have failed.
      cases hname : lookupName (s₀.tables r).nameInterning (p.siteName site) with
      | ok nid =>
        have hne := (nameIs_of_lookupName hname).2 hlookup
        exact absurd (hunknown nid (hbefore.trans hname)) hne
      | error message => rw [error_of_lookupName hname]

/-! ## Calls return -/

/-- A bound on the number of steps that a call still takes if no other thread interferes. -/
def Pc.rank (latest : UInt32) : Pc → ℕ
  | .slotLoad => 13
  | .claimLoad => 12
  | .nextLoad => 11
  | .nextCas next => if next = latest then 9 else 10
  | .slotCas _ => 8
  | .chunkLoad _ => 7
  | .cellLoad _ => 6
  | .lock _ => 5
  | .recheck _ => 4
  | .lookup _ => 3
  | .overflow _ => 2
  | .record _ _ => 1
  | .siteLoad => 3
  | .nameId => 2
  | .siteStore _ => 1
  | .returned _ => 0

theorem nine_le_rank_nextCas {latest next : UInt32} : 9 ≤ (Pc.nextCas next).rank latest := by
  simp only [Pc.rank]
  split_ifs
  · exact le_refl _
  · exact Nat.le_succ _

/-- A step that brings a thread nearer to its return, and out of the lock only with it. -/
structure Nearer (s : State) (t : ThreadId) (th : Thread) (s₁ : State) (pc' : Pc) : Prop where
  threads : s₁.threads = s.threads
  rank : pc'.rank s₁.nextTypeIdCacheSlot.value < th.pc.rank s.nextTypeIdCacheSlot.value
  locked : th.pc.locked → pc'.locked ∨
    ((∃ result, pc' = .returned result) ∧ (s₁.tables th.call.registry).mutex = none)

/-- A thread has the answer of `lookupTypeId` and goes on. -/
theorem found_nearer {slot : Option UInt32} (hr : th.call.registry = r)
    (hrank : 1 < th.pc.rank s.nextTypeIdCacheSlot.value) (hlocked : th.pc.locked → slot.isSome) :
    ∃ (s₁ : State) (pc' : Pc), found s t th r slot id = s₁.goOn t th pc' ∧
      Nearer s t th s₁ pc' := by
  unfold found
  cases slot with
  | none =>
    exact ⟨_, _, rfl, rfl, Nat.lt_of_succ_lt hrank, fun hl => absurd (hlocked hl) nofun⟩
  | some slot =>
    dsimp only
    split_ifs
    · refine ⟨_, _, rfl, rfl, Nat.lt_of_succ_lt hrank, fun _ => .inr ⟨⟨_, rfl⟩, ?_⟩⟩
      rw [hr, setTables_self]
      rfl
    · exact ⟨_, _, rfl, rfl, hrank, fun _ => .inl rfl⟩

/-- With fresh loads, a strong compare-and-swap and memory, every step of `typeIdFor<T>()`
    brings its thread nearer to the return; it waits for the lock only. -/
theorem typeStep_nearer (hcall : th.call = .typeIdFor r T)
    (hpcs : TypePc p s r T th.before th.pc) (hnot : ∀ result, th.pc ≠ .returned result)
    (hfree : ∀ slot, th.pc = .lock slot → (s.tables r).mutex = none) :
    ∃ (s₁ : State) (pc' : Pc), typeStep p s t th r T 0 true = some (s₁.goOn t th pc') ∧
      Nearer s t th s₁ pc' := by
  have hr : th.call.registry = r := by rw [hcall, Call.registry]
  have hstill : ∀ pc' : Pc, th.pc.locked = false → pc'.rank s.nextTypeIdCacheSlot.value <
      th.pc.rank s.nextTypeIdCacheSlot.value → Nearer s t th s pc' :=
    fun pc' hlocked hrank => ⟨rfl, hrank, by rw [hlocked]; rintro ⟨⟩⟩
  unfold typeStep
  -- One case for each point of the call: which point follows, and that its rank is smaller.
  cases hpc : th.pc with
  | slotLoad =>
    refine ⟨s, _, rfl, hstill _ (by rw [hpc]; rfl) ?_⟩
    rw [hpc]
    split_ifs <;> simp [Pc.rank]
  | claimLoad =>
    refine ⟨s, _, rfl, hstill _ (by rw [hpc]; rfl) ?_⟩
    rw [hpc]
    split_ifs <;> simp [Pc.rank]
  | nextLoad =>
    refine ⟨s, _, rfl, hstill _ (by rw [hpc]; rfl) ?_⟩
    rw [hpc]
    simp [Pc.rank]
  | nextCas next =>
    dsimp only
    have hrank : ∀ pc' : Pc, pc'.rank s.nextTypeIdCacheSlot.value < 9 →
        pc'.rank s.nextTypeIdCacheSlot.value < th.pc.rank s.nextTypeIdCacheSlot.value := by
      rw [hpc]
      exact fun pc' hlt => Nat.lt_of_lt_of_le hlt nine_le_rank_nextCas
    split_ifs with hinvalid hcas
    · exact ⟨s, _, rfl, hstill _ (by rw [hpc]; rfl) (hrank _ (by simp [Pc.rank]))⟩
    · refine ⟨_, _, rfl, rfl, ?_, by rw [hpc]; rintro ⟨⟩⟩
      rw [hpc]
      exact Nat.lt_of_lt_of_le (Nat.lt_succ_self 8) nine_le_rank_nextCas
    -- The exchange has failed since another thread was faster, and the next one starts from the new
    -- value.
    · refine ⟨s, _, rfl, hstill _ (by rw [hpc]; rfl) ?_⟩
      have hstale : next ≠ s.nextTypeIdCacheSlot.value := fun heq => hcas ⟨heq.symm, rfl⟩
      rw [hpc]
      simp [Pc.rank, hstale]
  | slotCas next =>
    dsimp only
    split_ifs
    · refine ⟨_, _, rfl, rfl, ?_, by rw [hpc]; rintro ⟨⟩⟩
      rw [hpc]
      simp [Pc.rank]
    · refine ⟨s, _, rfl, hstill _ (by rw [hpc]; rfl) ?_⟩
      rw [hpc]
      simp [Pc.rank]
  | chunkLoad slot =>
    dsimp only
    split_ifs <;>
    · refine ⟨s, _, rfl, hstill _ (by rw [hpc]; rfl) ?_⟩
      rw [hpc]
      simp [Pc.rank]
  | cellLoad slot =>
    refine ⟨s, _, rfl, hstill _ (by rw [hpc]; rfl) ?_⟩
    rw [hpc]
    split_ifs <;> simp [Pc.rank]
  | lock slot =>
    dsimp only
    rw [if_pos (hfree slot hpc)]
    refine ⟨_, _, rfl, rfl, ?_, by rw [hpc]; rintro ⟨⟩⟩
    rw [hpc]
    simp [Pc.rank]
  | recheck slot =>
    have hunlock : ∀ id, Nearer s t th (s.setTables r Tables.unlock) (.returned (.ok id)) := by
      refine fun id => ⟨rfl, ?_, fun _ => .inr ⟨⟨_, rfl⟩, ?_⟩⟩
      · rw [hpc]
        simp [Pc.rank]
      · rw [hr, setTables_self]
        rfl
    have hmiss : Nearer s t th s (.lookup (some slot)) := by
      refine ⟨rfl, ?_, fun _ => .inl rfl⟩
      rw [hpc]
      simp [Pc.rank]
    dsimp only
    split_ifs
    · exact ⟨s, _, rfl, hmiss⟩
    · exact ⟨_, _, rfl, hunlock _⟩
    · exact ⟨s, _, rfl, hmiss⟩
    · exact ⟨_, _, rfl, hunlock _⟩
  | lookup slot =>
    have hlocked : th.pc.locked → slot.isSome := by
      rw [hpc]
      cases slot with
      | none => rintro ⟨⟩
      | some slot => exact fun _ => rfl
    dsimp only
    split
    · obtain ⟨s₁, pc', heq, hnear⟩ := found_nearer hr (by rw [hpc]; simp [Pc.rank]) hlocked
      exact ⟨s₁, pc', congrArg some heq, hnear⟩
    · refine ⟨s, _, rfl, rfl, ?_, fun hl => .inl ?_⟩
      · rw [hpc]
        simp [Pc.rank]
      · obtain ⟨slot, rfl⟩ := Option.isSome_iff_exists.mp (hlocked hl)
        rfl
  | overflow slot =>
    have hlocked : th.pc.locked → slot.isSome := by
      rw [hpc]
      cases slot with
      | none => rintro ⟨⟩
      | some slot => exact fun _ => rfl
    obtain ⟨s₁, pc', heq, hnear⟩ := found_nearer hr (by rw [hpc]; simp [Pc.rank]) hlocked
    exact ⟨s₁, pc', congrArg some heq, hnear⟩
  | record slot id =>
    refine ⟨_, _, rfl, rfl, ?_, fun _ => .inr ⟨⟨_, rfl⟩, ?_⟩⟩
    · rw [hpc]
      simp [Pc.rank]
    · obtain ⟨cell, chunk, hrecord, -⟩ := Tables.record_cases (s.tables r) slot id true
      rw [hr, setTables_self, hrecord]
  | siteLoad | nameId | siteStore nid =>
    rw [hpc] at hpcs
    exact hpcs.elim
  | returned result => exact absurd hpc (hnot result)

/-- The same of a call for a name, which does not wait. -/
theorem nameStep_nearer (hpcs : NamePc p s r site th.before th.pc)
    (hnot : ∀ result, th.pc ≠ .returned result) :
    ∃ (s₁ : State) (pc' : Pc), nameStep p s t th r site 0 = some (s₁.goOn t th pc') ∧
      Nearer s t th s₁ pc' := by
  unfold nameStep
  cases hpc : th.pc with
  | siteLoad =>
    refine ⟨s, _, rfl, rfl, ?_, by rw [hpc]; nofun⟩
    rw [hpc]
    split_ifs <;> simp [Pc.rank]
  | nameId =>
    dsimp only
    split_ifs
    · refine ⟨_, _, rfl, rfl, ?_, by rw [hpc]; nofun⟩
      rw [hpc]
      simp [Pc.rank]
    · refine ⟨s, _, rfl, rfl, ?_, by rw [hpc]; nofun⟩
      rw [hpc]
      split <;> simp [Pc.rank]
  | siteStore nid =>
    refine ⟨_, _, rfl, rfl, ?_, by rw [hpc]; nofun⟩
    rw [hpc]
    simp [Pc.rank]
  | returned result => exact absurd hpc (hnot result)
  | _ =>
    rw [hpc] at hpcs
    exact hpcs.elim

theorem callStep_nearer (h : Sound p s th) (hnot : ∀ result, th.pc ≠ .returned result)
    (hfree : ∀ slot, th.pc = .lock slot → (s.tables th.call.registry).mutex = none) :
    ∃ (s₁ : State) (pc' : Pc), callStep p s t th 0 true = some (s₁.goOn t th pc') ∧
      Nearer s t th s₁ pc' := by
  have hpcs := h.pc
  unfold callStep
  cases hcall : th.call with
  | typeIdFor r T =>
    rw [hcall] at hpcs hfree
    exact typeStep_nearer hcall hpcs hnot hfree
  | nameIdFor r site =>
    rw [hcall] at hpcs
    exact nameStep_nearer hpcs hnot

/-- Only threads inside their calls move. -/
def OnlyAdvances (as : List Action) : Prop := ∀ a ∈ as, ∃ u back luck, a = .advance u back luck

/-- A thread takes the step that brings it nearer to its return. -/
theorem Inv.advance_nearer (h : Inv p s) (ht : s.threads t = some th)
    (hnot : ∀ result, th.pc ≠ .returned result)
    (hfree : ∀ slot, th.pc = .lock slot → (s.tables th.call.registry).mutex = none) :
    ∃ (s₁ : State) (pc' : Pc), (machine p).step s (.advance t 0 true) = some (s₁.goOn t th pc') ∧
      Nearer s t th s₁ pc' ∧ Inv p (s₁.goOn t th pc') := by
  obtain ⟨s₁, pc', hcall, hnear⟩ := callStep_nearer (t := t) (h.sound t th ht) hnot hfree
  have hs : IdentifierCaches.step p s (.advance t 0 true) = some (s₁.goOn t th pc') := by
    simp only [IdentifierCaches.step, ht, hcall]
  exact ⟨s₁, pc', hs, hnear, (h.step (a := .advance t 0 true) (by rintro ⟨⟩) hs).inv⟩

/-- The holder of a lock leaves it when it goes on. -/
theorem Inv.leavesLock (h : Inv p s) (ht : s.threads t = some th) (hlocked : th.pc.locked) :
    ∃ as s', OnlyAdvances as ∧ (machine p).run s as = some s' ∧ Inv p s' ∧
      (∀ u, u ≠ t → s'.threads u = s.threads u) ∧
      (s'.tables th.call.registry).mutex = none := by
  -- By induction on the rank of the point at which the holder of the lock stands.
  induction hn : th.pc.rank s.nextTypeIdCacheSlot.value using Nat.strong_induction_on
    generalizing s th with
  | _ n ih =>
    have hnot : ∀ result, th.pc ≠ .returned result := by
      intro result hpc
      rw [hpc] at hlocked
      cases hlocked
    have hfree : ∀ slot, th.pc = .lock slot → (s.tables th.call.registry).mutex = none := by
      intro slot hpc
      rw [hpc] at hlocked
      cases hlocked
    obtain ⟨s₁, pc', hs, hnear, hinv⟩ := h.advance_nearer ht hnot hfree
    have hother : ∀ u, u ≠ t → (s₁.goOn t th pc').threads u = s.threads u :=
      fun u hu => by rw [goOn_of_ne hu, hnear.threads]
    have honly : ∀ as, OnlyAdvances as → OnlyAdvances (.advance t 0 true :: as) :=
      fun as has => List.forall_mem_cons.mpr ⟨⟨t, 0, true, rfl⟩, has⟩
    -- Either it still holds the lock and is nearer to its end, or it has just let it go.
    rcases hnear.locked hlocked with hlocked' | ⟨-, hmutex⟩
    · obtain ⟨as, s', has, hrun, hinv', hrest, hmutex⟩ :=
        ih _ (hn ▸ hnear.rank) hinv goOn_self hlocked' rfl
      refine ⟨_, s', honly as has, ?_, hinv', fun u hu => (hrest u hu).trans (hother u hu), hmutex⟩
      rw [Machine.run_cons, hs]
      exact hrun
    · refine ⟨_, _, honly [] nofun, ?_, hinv, hother, hmutex⟩
      rw [Machine.run_cons, hs]
      rfl

/-- Every call can return, by steps of the calls alone. -/
theorem Inv.returns (h : Inv p s) (ht : s.threads t = some th) :
    ∃ as s' result, OnlyAdvances as ∧ (machine p).run s as = some s' ∧
      s'.threads t = some { th with pc := .returned result } := by
  induction hn : th.pc.rank s.nextTypeIdCacheSlot.value using Nat.strong_induction_on
    generalizing s th with
  | _ n ih =>
    by_cases hdone : ∃ result, th.pc = .returned result
    · obtain ⟨result, hpc⟩ := hdone
      refine ⟨[], s, result, nofun, rfl, ?_⟩
      rw [ht, ← hpc]
    -- If the thread waits for the lock, the holder leaves it first.
    obtain ⟨as₀, s₀, has₀, hrun₀, h₀, ht₀, hrank₀, hfree⟩ : ∃ as₀ s₀, OnlyAdvances as₀ ∧
        (machine p).run s as₀ = some s₀ ∧ Inv p s₀ ∧ s₀.threads t = some th ∧
        th.pc.rank s₀.nextTypeIdCacheSlot.value = n ∧
        ∀ slot, th.pc = .lock slot → (s₀.tables th.call.registry).mutex = none := by
      by_cases hwait : ∃ slot, th.pc = .lock slot
      · obtain ⟨slot, hpc⟩ := hwait
        cases hmutex : (s.tables th.call.registry).mutex with
        | none => exact ⟨[], s, nofun, rfl, h, ht, hn, fun _ _ => hmutex⟩
        | some u =>
          obtain ⟨thu, hu, hr, hlocked⟩ := h.holder _ u hmutex
          have htu : t ≠ u := by
            rintro rfl
            obtain rfl := Option.some.inj (ht.symm.trans hu)
            rw [hpc] at hlocked
            cases hlocked
          obtain ⟨as₀, s₀, has₀, hrun₀, h₀, hrest, hfree⟩ := h.leavesLock hu hlocked
          refine ⟨as₀, s₀, has₀, hrun₀, h₀, (hrest t htu).trans ht, ?_, fun _ _ => hr ▸ hfree⟩
          rw [← hn, hpc]
          rfl
      · exact ⟨[], s, nofun, rfl, h, ht, hn, fun slot hpc => absurd ⟨slot, hpc⟩ hwait⟩
    have hnot : ∀ result, th.pc ≠ .returned result := fun result hpc => hdone ⟨result, hpc⟩
    obtain ⟨s₁, pc', hs, hnear, hinv⟩ := h₀.advance_nearer ht₀ hnot hfree
    obtain ⟨as, s', result, has, hrun, ht'⟩ := ih _ (hrank₀ ▸ hnear.rank) hinv goOn_self rfl
    refine ⟨as₀ ++ .advance t 0 true :: as, s', result, ?_, ?_, ht'⟩
    · intro a ha
      rcases List.mem_append.mp ha with ha | ha
      · exact has₀ a ha
      · rcases List.mem_cons.mp ha with rfl | ha
        · exact ⟨t, 0, true, rfl⟩
        · exact has a ha
    · rw [Machine.run_append hrun₀, Machine.run_cons, hs]
      exact hrun

/-! ## Transparency -/

/-- The cache slot that a call works on. -/
def Pc.slot : Pc → Option UInt32
  | .chunkLoad slot | .cellLoad slot | .lock slot | .recheck slot | .record slot _ => some slot
  | .lookup slot | .overflow slot => slot
  | _ => none

theorem HasSlot.of_pc (h : Sound p s th) (hcall : th.call = .typeIdFor r T)
    (hslot : th.pc.slot = some x) : HasSlot s T x := by
  have hpcs := h.pc
  rw [hcall] at hpcs
  cases hpc : th.pc <;> rw [hpc] at hpcs hslot
  case chunkLoad slot => exact Option.some.inj hslot ▸ hpcs
  case cellLoad slot => exact Option.some.inj hslot ▸ hpcs
  case lock slot => exact Option.some.inj hslot ▸ hpcs
  case recheck slot => exact Option.some.inj hslot ▸ hpcs
  case record slot id => exact Option.some.inj hslot ▸ hpcs.1
  case lookup slot =>
    obtain rfl : slot = some x := hslot
    exact hpcs
  case overflow slot => exact hpcs.1 x hslot
  all_goals cases hslot

/-- The caches are transparent. In a process with fewer than `2 ^ 32 - 1` registries, over every
    run: an identifier that a lookup of a type gives stays; the slots of two types differ, and a
    call works on the slot of its type; a call that begins where the run starts and has returned
    where it ends returned what its table says there, or a negative answer that the table gave
    where the call began, and a call that interns returned what its table says; and every call
    can return. -/
theorem caches_transparent (p : Program) {s s' : State} {as : List Action}
    (hs : (machine p).ReachableBy FewRegistries s) (hfew : (machine p).Along FewRegistries s as)
    (hrun : (machine p).run s as = some s') :
    (∀ r index, lookupTypeId (s.tables r).typeInterning index ≠ kInvalidTypeId →
      lookupTypeId (s'.tables r).typeInterning index =
        lookupTypeId (s.tables r).typeInterning index) ∧
    (∀ T T' x, x ≠ kInvalidTypeId → x ∈ (s'.slotCache T).values →
      x ∈ (s'.slotCache T').values → T = T') ∧
    (∀ t th r T x, s'.threads t = some th → th.call = .typeIdFor r T → th.pc.slot = some x →
      x ≠ kInvalidTypeId ∧ x ∈ (s'.slotCache T).values) ∧
    (∀ t c before result, as.head? = some (.call t c) → Action.leave t ∉ as →
      s'.threads t = some ⟨c, .returned result, before⟩ →
      result = answer p s' c ∨
        (c.looksUp ∧ result = answer p s c ∧ ∀ id, result = .ok id → id = kInvalidTypeId)) ∧
    ∀ t th, s'.threads t = some th → ∃ bs s'' result, OnlyAdvances bs ∧
      (machine p).run s' bs = some s'' ∧
      s''.threads t = some { th with pc := .returned result } := by
  have hinv := inv_of_reachable hs
  have honward := hinv.run hfew hrun
  have hinv' := honward.inv
  refine ⟨fun r index hid => ?_, fun T T' x hx hT hT' => ?_, fun t th r T x ht hcall hslot => ?_,
    fun t c before result hhead hstays ht => ?_, fun t th ht => hinv'.returns ht⟩
  -- An identifier once known is the one of all later lookups.
  · obtain ⟨i, hi, hword⟩ := exists_of_wordOf_ne hid
    have hi' := (hinv.memory.types r).lookupByTypeIndex_mono (hinv'.memory.types r)
      (honward.grows.types r) hi
    rw [lookupTypeId, hi', hword]
    rfl
  · exact Sum.inl.inj (hinv'.owner x (.inl T) (.inl T') ⟨hx, hT⟩ ⟨hx, hT'⟩)
  · exact HasSlot.of_pc (hinv'.sound t th ht) hcall hslot
  -- The answer for the call was recorded when the call began.
  · obtain ⟨as, rfl⟩ : ∃ bs, as = .call t c :: bs := by
      cases as with
      | nil => cases hhead
      | cons a bs => exact ⟨bs, by rw [Option.some.inj hhead]⟩
    obtain ⟨s₁, hcall, hrun⟩ := Option.bind_eq_some_iff.mp hrun
    obtain ⟨-, ⟨⟩⟩ := Option.ite_none_right_eq_some.mp hcall
    have hbegin : (s.setThread t (some ⟨c, firstPc c, answer p s c⟩)).threads t =
        some ⟨c, firstPc c, answer p s c⟩ := update_self ..
    obtain ⟨pc, hpc⟩ := run_thread hrun hbegin fun hmem => hstays (List.mem_cons_of_mem _ hmem)
    obtain rfl : answer p s c = before := by
      have heq := Option.some.inj (hpc.symm.trans ht)
      exact congrArg Thread.before heq
    exact (hinv'.sound t _ ht).answered rfl rfl

/-- A program with a clock and a store, and a scope for each request. -/
def shop : Program where
  typeIndex T := T
  qualifiedName i := if i = 0 then "app::Clock" else "app::Store"
  siteName _ := "request"

/-- Two registries, one of which has started with the store. -/
def shopStart : List Action :=
  [.construct, .construct, .internType 0 1, .freeze 0, .internName 1 "user"]

/-- A thread asks the first registry for the clock, which is bound when the thread has already
    missed it in the startup map. Another one interns the scope name for both registries. -/
def shopCalls : List Action :=
  [.call 1 (.typeIdFor 0 0), .advance 1 0 true, .advance 1 0 true, .advance 1 0 true,
    .advance 1 0 true, .advance 1 0 true, .advance 1 0 true, .advance 1 0 true,
    .advance 1 0 true, .advance 1 0 true, .internType 0 0,
    .call 2 (.nameIdFor 0 (.scope 0)), .advance 2 0 true, .advance 2 0 true, .advance 2 0 true,
    .leave 2, .call 2 (.nameIdFor 1 (.scope 0)), .advance 2 0 true, .advance 2 0 true,
    .advance 2 0 true, .advance 1 0 true, .advance 1 0 true]

theorem caches_transparent_shop : ∃ s s', (machine shop).run {} shopStart = some s ∧
    (machine shop).run s shopCalls = some s' ∧
    s'.threads 1 = some ⟨.typeIdFor 0 0, .returned (.ok 1), .ok kInvalidTypeId⟩ ∧
    s'.threads 2 = some ⟨.nameIdFor 1 (.scope 0), .returned (.ok 2), .ok 2⟩ ∧
    answer shop s' (.typeIdFor 0 0) = .ok 1 := by
  have hstart : ∃ s, (machine shop).run {} shopStart = some s ∧
      ∃ s', (machine shop).run s shopCalls = some s' ∧
        s'.threads 1 = some ⟨.typeIdFor 0 0, .returned (.ok 1), .ok kInvalidTypeId⟩ ∧
        s'.threads 2 = some ⟨.nameIdFor 1 (.scope 0), .returned (.ok 2), .ok 2⟩ :=
    ⟨_, rfl, _, rfl, rfl, rfl⟩
  obtain ⟨s, hs, s', hs', h₁, h₂⟩ := hstart
  have hview : ((machine shop).run {} shopStart).map (fun s =>
      decide ((machine shop).Along FewRegistries s shopCalls)) = some true := by decide
  rw [hs] at hview
  have hreach : (machine shop).ReachableBy FewRegistries s :=
    .run (.init rfl) (by decide : (machine shop).Along FewRegistries {} shopStart) hs
  have hanswers := (caches_transparent shop hreach (of_decide_eq_true (Option.some.inj hview))
    hs').2.2.2.1
  refine ⟨s, s', hs, hs', h₁, h₂, ?_⟩
  rcases hanswers 1 _ _ _ rfl (by decide) h₁ with hid | ⟨-, -, hid⟩
  · exact hid.symm
  · exact absurd (hid 1 rfl) (by decide)

end Ctorium.IdentifierCaches
