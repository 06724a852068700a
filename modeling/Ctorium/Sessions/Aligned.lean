import Ctorium.Sessions

/-!
# Scopes in step with their cycle

After the root has been started, further calls on it only add descriptors of bound beans,
with new slots (`Grows`). The session store of a scope, its pending bindings and what is
under way in it agree with the instances of its current cycle (`Aligned`): this stays so
while the root and other scopes move on (`Aligned.frame`), and through each step of the
scope itself.
-/

namespace Ctorium.Sessions

open Function (update)

/-! ## The registry of a started root -/

/-- The registry has got further descriptors, all of bound beans and with new slots. -/
structure Grows (r r' : Registry) : Prop where
  started : r'.started = true
  old : ∀ d < r.descriptors.length, r'.descriptors[d]? = r.descriptors[d]?
  length : r.descriptors.length ≤ r'.descriptors.length
  new : ∀ d desc, r.descriptors.length ≤ d → r'.descriptors[d]? = some desc →
    desc.origin = .runtimeBinding ∧ desc.primaryDescriptor = some d ∧
      ∀ slot, desc.sessionSlot = some slot → r.sessionSlotCount ≤ slot
  count : r.sessionSlotCount ≤ r'.sessionSlotCount

section Grows

variable {r r' : Registry}

theorem Grows.of_descriptors_eq (hs : r'.started = true) (hds : r'.descriptors = r.descriptors)
    (hcount : r'.sessionSlotCount = r.sessionSlotCount) : Grows r r' := by
  refine ⟨hs, fun d _ => by rw [hds], hds ▸ le_rfl, fun d desc hd hget => ?_, hcount.ge⟩
  rw [hds, List.getElem?_eq_none hd] at hget
  cases hget

theorem Grows.of_append (hs : r'.started = true) {desc : Descriptor}
    (hds : r'.descriptors = r.descriptors ++ [desc]) (horigin : desc.origin = .runtimeBinding)
    (hprimary : desc.primaryDescriptor = some r.descriptors.length)
    (hslot : ∀ slot, desc.sessionSlot = some slot → r.sessionSlotCount ≤ slot)
    (hcount : r.sessionSlotCount ≤ r'.sessionSlotCount) : Grows r r' := by
  refine ⟨hs, fun d hd => ?_, ?_, fun d desc' hd hget => ?_, hcount⟩
  · rw [hds, List.getElem?_append_left hd]
  · rw [hds, List.length_append]
    exact Nat.le_add_right _ _
  · have hlt := (List.getElem?_eq_some_iff.mp hget).1
    rw [hds, List.length_append, List.length_singleton] at hlt
    obtain rfl : d = r.descriptors.length := Nat.le_antisymm (Nat.le_of_lt_succ hlt) hd
    rw [hds, List.getElem?_concat_length] at hget
    obtain rfl := Option.some.inj hget
    exact ⟨horigin, hprimary, hslot⟩

/-- A slot of the larger registry is an old one, or a new one of a new descriptor. -/
theorem Grows.slotOf_cases (h : Grows r r') {d : DescriptorId} {slot : SessionSlot}
    (hslot : r'.sessionSlotOf d = some slot) : r.sessionSlotOf d = some slot ∨
      r.descriptors.length ≤ d ∧ r.sessionSlotCount ≤ slot ∧
        ∃ desc, r'.descriptors[d]? = some desc ∧ desc.origin = .runtimeBinding := by
  rcases Nat.lt_or_ge d r.descriptors.length with hd | hd
  · left
    rwa [Registry.sessionSlotOf, ← h.old d hd]
  · obtain ⟨desc, hget, hdesc⟩ := Option.bind_eq_some_iff.mp hslot
    obtain ⟨horigin, -, hnew⟩ := h.new d desc hd hget
    exact .inr ⟨hd, hnew slot hdesc, desc, hget, horigin⟩

theorem Grows.slotOf (h : Grows r r') {d : DescriptorId} {slot : SessionSlot}
    (hslot : r.sessionSlotOf d = some slot) : r'.sessionSlotOf d = some slot := by
  rw [Registry.sessionSlotOf, h.old d (Registry.lt_length_of_sessionSlotOf hslot)]
  exact hslot

theorem Grows.slotOf_ne_none (h : Grows r r') {d : DescriptorId}
    (hslot : r.sessionSlotOf d ≠ none) : r'.sessionSlotOf d ≠ none := by
  obtain ⟨slot, hslot⟩ := Option.ne_none_iff_exists'.mp hslot
  rw [h.slotOf hslot]
  exact nofun

end Grows

/-! ## The effect of calls -/

/-- The scopes have the same session beans and bindings. -/
structure SameSession (sc sc' : ScopedContext) : Prop where
  sessionStore : sc'.sessionStore = sc.sessionStore
  pending : sc'.pendingRuntimeSessions = sc.pendingRuntimeSessions
  scopeState : sc'.scopeState = sc.scopeState

theorem SameSession.refl (sc : ScopedContext) : SameSession sc sc := ⟨rfl, rfl, rfl⟩

section Calls

variable {b : BeanContext}

/-- A call on the root adds at most a descriptor, and leaves the sessions of the scopes alone. -/
theorem exec_root (hs : b.core.started = true) {call : BeanContext.Call}
    (hroot : rootCall call = true) : Grows b.core (b.exec call).state.core ∧
      ∀ n, SameSession (b.scopes n) ((b.exec call).state.scopes n) := by
  -- The calls that write no descriptor and no scope, and those that write one scope's names.
  have hsame : ∀ core : Registry, core.started = b.core.started →
      core.descriptors = b.core.descriptors → core.sessionSlotCount = b.core.sessionSlotCount →
      Grows b.core core ∧ ∀ n, SameSession (b.scopes n) ((b.withCore core).scopes n) :=
    fun core h₁ h₂ h₃ => ⟨.of_descriptors_eq (h₁.trans hs) h₂ h₃, fun n => .refl _⟩
  have hscope : ∀ (core : Registry) sc (sc' : ScopedContext), core.started = b.core.started →
      core.descriptors = b.core.descriptors → core.sessionSlotCount = b.core.sessionSlotCount →
      SameSession (b.scopes sc) sc' → Grows b.core core ∧
        ∀ n, SameSession (b.scopes n) (((b.withCore core).setScope sc sc').scopes n) := by
    intro core sc sc' h₁ h₂ h₃ hsc
    refine ⟨.of_descriptors_eq (h₁.trans hs) h₂ h₃, fun n => ?_⟩
    simp only [BeanContext.setScope, BeanContext.withCore, Function.update_apply]
    split_ifs with hn
    · exact hn ▸ hsc
    · exact .refl _
  cases call with
  -- discover() only queues once started: no descriptor is added.
  | discover cds =>
    simp only [BeanContext.exec, BeanContext.discover, Registry.submitContribution, hs, if_true]
    exact hsame _ rfl rfl rfl
  | bindSingleton type name priority object =>
    simp only [BeanContext.exec, BeanContext.bindSingleton, Registry.bindSingleton,
      Registry.bindSingletonStarted]
    split_ifs with _ hstarted
    · exact hsame _ rfl rfl rfl
    · exact hsame _ rfl rfl rfl
    -- The one call that adds a descriptor: it is not a session, so no slot is counted.
    · exact ⟨.of_append hs rfl rfl rfl (by rintro _ ⟨⟩) le_rfl, fun n => .refl _⟩
    · exact absurd hs hstarted
  | defaultNamed scope type name =>
    simp only [BeanContext.exec, BeanContext.defaultNamed]
    split_ifs
    · exact hsame _ rfl rfl rfl
    · exact hsame _ rfl rfl rfl
    · split
      · exact hsame _ rfl rfl rfl
      · split
        · exact hsame _ rfl rfl rfl
        · next sc => exact hscope _ sc _ rfl rfl rfl ⟨rfl, rfl, rfl⟩
  | clearDefaultNamed scope type =>
    simp only [BeanContext.exec, BeanContext.clearDefaultNamed]
    split_ifs
    · exact hsame _ rfl rfl rfl
    · split
      · exact hsame _ rfl rfl rfl
      · split
        · exact hsame _ rfl rfl rfl
        · next sc =>
          split_ifs
          · exact hsame _ rfl rfl rfl
          · exact hscope _ sc _ rfl rfl rfl ⟨rfl, rfl, rfl⟩
  | start =>
    simp only [BeanContext.exec, BeanContext.start, Registry.start, hs, if_true]
    exact hsame _ rfl rfl rfl
  | bindSession scope type name priority object => cases hroot
  | startScope scope => cases hroot
  | stopScope scope => cases hroot
  | restartScope scope => cases hroot

/-- The descriptor of a session binding on a started root. -/
theorem boundSession_grows (hs : b.core.started = true) (type : CppType) (name : String)
    (priority : ℤ) : Grows b.core (boundSession b type name priority).2 := by
  have hs' : (b.core.internSession type name).started = true := hs
  unfold boundSession Registry.sessionDescriptor
  split
  · exact .of_descriptors_eq hs rfl rfl
  · simp only [Registry.appendSession, hs', if_true]
    refine .of_append hs rfl rfl rfl (fun slot hslot => ?_) (Nat.le_succ _)
    exact (Option.some.inj hslot).le

/-- A session instance is refused, or is made pending, or is stored. -/
theorem placeSession_cases (b : BeanContext) (n : ScopeId) (d : DescriptorId) (object : Addr) :
    (∃ e, b.placeSession n d object = .fail b e) ∨
    (∀ psb ∈ (b.scopes n).pendingRuntimeSessions, psb.descId ≠ d) ∧
      ((b.scopes n).scopeState ≠ .running ∧ b.placeSession n d object =
          .ok (b.setScope n { b.scopes n with
            pendingRuntimeSessions := (b.scopes n).pendingRuntimeSessions ++ [⟨d, object⟩] }) ∨
        (b.scopes n).scopeState = .running ∧
          (b.scopes n).sessionStore.find (b.core.sessionSlotOf d) = none ∧
          b.placeSession n d object = .ok (b.setScope n { b.scopes n with
            sessionStore :=
              (b.scopes n).sessionStore.growAndStore (b.core.sessionSlotOf d) d object })) := by
  simp only [BeanContext.placeSession]
  split_ifs with hpending hrunning hfound
  · exact .inl ⟨_, rfl⟩
  · exact .inr ⟨by simpa using hpending, .inl ⟨hrunning, rfl⟩⟩
  · exact .inl ⟨_, rfl⟩
  · exact .inr ⟨by simpa using hpending, .inr ⟨not_not.mp hrunning, by simpa using hfound, rfl⟩⟩

/-- The outcomes of `bindSession`. -/
theorem bindSession_cases (b : BeanContext) (n : ScopeId) (type : CppType) (name : String)
    (priority : ℤ) (object : Addr) :
    (∃ e core, b.bindSession n type name priority object = .fail (b.withCore core) e ∧
      (core = b.core ∨ core = b.core.internSession type name)) ∨
    b.bindSession n type name priority object = (b.withCore
      (boundSession b type name priority).2).placeSession n (boundSession b type name priority).1
        object := by
  unfold BeanContext.bindSession
  dsimp only
  split_ifs
  · exact .inl ⟨_, _, rfl, .inl rfl⟩
  · exact .inl ⟨_, _, rfl, .inr rfl⟩
  · exact .inr rfl

/-- A binding adds at most a descriptor, whether it is accepted or refused, and leaves the state
    of the scopes. -/
theorem bindSession_grows (hs : b.core.started = true) (n : ScopeId) (type : CppType)
    (name : String) (priority : ℤ) (object : Addr) :
    Grows b.core (b.bindSession n type name priority object).state.core ∧
      ∀ k, ((b.bindSession n type name priority object).state.scopes k).scopeState =
        (b.scopes k).scopeState := by
  have hgrows := boundSession_grows hs type name priority
  rcases bindSession_cases b n type name priority object with ⟨e, core, heq, hcore⟩ | heq
  · rw [heq]
    refine ⟨?_, fun k => rfl⟩
    rcases hcore with rfl | rfl
    · exact .of_descriptors_eq hs rfl rfl
    · exact .of_descriptors_eq hs rfl rfl
  · rw [heq]
    have hset : ∀ sc : ScopedContext, sc.scopeState = (b.scopes n).scopeState → ∀ k,
        (((b.withCore (boundSession b type name priority).2).setScope n sc).scopes k).scopeState =
          (b.scopes k).scopeState := by
      intro sc hsc k
      by_cases hk : k = n
      · subst hk
        exact (congrArg ScopedContext.scopeState (Function.update_self ..)).trans hsc
      · exact congrArg ScopedContext.scopeState (Function.update_of_ne hk ..)
    rcases placeSession_cases (b.withCore (boundSession b type name priority).2) n
      (boundSession b type name priority).1 object with ⟨e, hfail⟩ | ⟨-, ⟨-, hok⟩ | ⟨-, -, hok⟩⟩
    · exact hfail ▸ ⟨hgrows, fun k => rfl⟩
    · exact hok ▸ ⟨hgrows, hset _ rfl⟩
    · exact hok ▸ ⟨hgrows, hset _ rfl⟩

end Calls

/-! ## Scopes in step with their cycle -/

/-- The registry has the bean of the descriptor bound, not discovered. -/
def Bound (r : Registry) (d : DescriptorId) : Prop :=
  ∃ desc, r.descriptors[d]? = some desc ∧ desc.origin = .runtimeBinding

/-- The session store of a scope, its pending bindings and what is under way agree with the
    instances of its current cycle. -/
structure Aligned (r : Registry) (owner : Addr → Option (ScopeId × DescriptorId))
    (destroyed : List Addr) (n : ScopeId) (sc : ScopedContext) (act : Activity) : Prop where
  below : ∀ slot, sc.sessionStore.instances slot ≠ none → slot < r.sessionSlotCount
  fits : ∀ slot, sc.sessionStore.instances slot ≠ none → slot < sc.sessionStore.instancesSize
  pending : ∀ psb ∈ sc.pendingRuntimeSessions, owner psb.boundInstance = some (n, psb.descId) ∧
    psb.boundInstance ∉ destroyed ∧ r.sessionSlotOf psb.descId ≠ none
  nodup : (sc.pendingRuntimeSessions.map PendingRuntimeSession.descId).Nodup
  entered : ∀ d m, act.entered d = some m → owner m = some (n, d) ∧ r.sessionSlotOf d ≠ none
  /-- In a cycle that has begun, the store holds the instances that have entered it. -/
  live : sc.scopeState = .running ∨ act.starting ≠ none →
    (∀ d slot, r.sessionSlotOf d = some slot → sc.sessionStore.instances slot = act.entered d) ∧
    (∀ d m, act.entered d = some m → m ∉ destroyed) ∧
    ∀ d slot, r.sessionSlotOf d = some slot → ¬Bound r d → slot < sc.sessionStore.instancesSize
  /-- During a stop, it holds those that have not been destroyed. -/
  stopping : sc.scopeState = .stopping →
    (∀ d slot, r.sessionSlotOf d = some slot →
      sc.sessionStore.instances slot = act.entered d ∧ (∀ m ∈ act.entered d, m ∉ destroyed) ∨
      sc.sessionStore.instances slot = none ∧ ∃ m ∈ destroyed, act.entered d = some m) ∧
    ∀ psb ∈ sc.pendingRuntimeSessions, ∀ d, act.entered d ≠ some psb.boundInstance
  running : sc.scopeState = .running → sc.pendingRuntimeSessions = []
  starting : ∀ rest, act.starting = some rest → sc.scopeState = .stopped ∧
    (∃ stored, sc.pendingRuntimeSessions = stored ++ rest) ∧
    (∀ psb ∈ rest, act.entered psb.descId = none) ∧
    ∀ psb ∈ rest, ∀ slot, r.sessionSlotOf psb.descId = some slot →
      slot < sc.sessionStore.instancesSize
  sweep : act.sweep ≠ none → sc.scopeState = .stopping
  materializing : ∀ p ∈ act.materializing, sc.scopeState = .running ∧ act.entered p = none ∧
    r.sessionSlotOf p ≠ none ∧ ¬Bound r p
  claimedOnce : act.materializing.Nodup
  returning : ∀ p m, (p, m) ∈ act.returning →
    sc.scopeState = .running ∧ act.entered p = some m

section Aligned

variable {r r' : Registry} {owner owner' : Addr → Option (ScopeId × DescriptorId)}
  {destroyed destroyed' : List Addr} {n : ScopeId} {sc sc' : ScopedContext} {act : Activity}

theorem Grows.bound_iff (h : Grows r r') {d : DescriptorId} (hd : r.sessionSlotOf d ≠ none) :
    Bound r' d ↔ Bound r d := by
  obtain ⟨slot, hslot⟩ := Option.ne_none_iff_exists'.mp hd
  rw [Bound, h.old d (Registry.lt_length_of_sessionSlotOf hslot), Bound]

/-- Nothing of the scope changes while the root and other scopes move on. -/
theorem Aligned.frame (h : Aligned r owner destroyed n sc act) (hgrows : Grows r r')
    (hsame : SameSession sc sc') (howner : ∀ m x, owner m = some x → owner' m = some x)
    (hsub : destroyed ⊆ destroyed')
    (hdestroyed : ∀ m ∈ destroyed', m ∈ destroyed ∨ ∀ d, owner m ≠ some (n, d)) :
    Aligned r' owner' destroyed' n sc' act := by
  obtain ⟨hstore, hpending, hstate⟩ := hsame
  have halive : ∀ d m, owner m = some (n, d) → m ∉ destroyed → m ∉ destroyed' := by
    intro d m hm hnot hmem
    rcases hdestroyed m hmem with hold | hother
    · exact hnot hold
    · exact hother d hm
  -- A new descriptor has a new slot, which is empty, and no instance of it has entered.
  have hnew : ∀ d slot, r'.sessionSlotOf d = some slot → r.sessionSlotOf d = some slot ∨
      sc.sessionStore.instances slot = none ∧ act.entered d = none ∧ Bound r' d := by
    intro d slot hslot
    rcases hgrows.slotOf_cases hslot with hold | ⟨hlength, hcount, desc, hget, horigin⟩
    · exact .inl hold
    · refine .inr ⟨?_, ?_, desc, hget, horigin⟩
      · by_contra hsome
        exact absurd (h.below slot hsome) (Nat.not_lt.mpr hcount)
      · by_contra hsome
        obtain ⟨m, hm⟩ := Option.ne_none_iff_exists'.mp hsome
        obtain ⟨slot', hslot'⟩ := Option.ne_none_iff_exists'.mp (h.entered d m hm).2
        exact absurd (Registry.lt_length_of_sessionSlotOf hslot') (Nat.not_lt.mpr hlength)
  refine ⟨?_, ?_, ?_, ?_, ?_, ?_, ?_, ?_, ?_, ?_, ?_, h.claimedOnce, ?_⟩
  · rw [hstore]
    exact fun slot hslot => (h.below slot hslot).trans_le hgrows.count
  · rw [hstore]
    exact h.fits
  · rw [hpending]
    intro psb hpsb
    obtain ⟨hm, hnot, hslot⟩ := h.pending psb hpsb
    exact ⟨howner _ _ hm, halive _ _ hm hnot, hgrows.slotOf_ne_none hslot⟩
  · rw [hpending]
    exact h.nodup
  · intro d m hd
    exact ⟨howner _ _ (h.entered d m hd).1, hgrows.slotOf_ne_none (h.entered d m hd).2⟩
  · rw [hstate, hstore]
    intro hlive
    obtain ⟨hread, hnot, hsized⟩ := h.live hlive
    refine ⟨fun d slot hslot => ?_, fun d m hd => halive d m (h.entered d m hd).1 (hnot d m hd),
      fun d slot hslot hb => ?_⟩
    · rcases hnew d slot hslot with hold | ⟨hnone, hent, -⟩
      · exact hread d slot hold
      · rw [hnone, hent]
    · rcases hnew d slot hslot with hold | ⟨-, -, hbound⟩
      · exact hsized d slot hold fun hb' => hb ((hgrows.bound_iff (hold ▸ nofun)).mpr hb')
      · exact absurd hbound hb
  · rw [hstate, hstore, hpending]
    intro hstopping
    obtain ⟨hread, hapart⟩ := h.stopping hstopping
    refine ⟨fun d slot hslot => ?_, hapart⟩
    rcases hnew d slot hslot with hold | ⟨hnone, hent, -⟩
    · refine (hread d slot hold).imp (fun ⟨heq, hnot⟩ => ⟨heq, fun m hm => ?_⟩)
        fun ⟨heq, m, hm, hd⟩ => ⟨heq, m, hsub hm, hd⟩
      exact halive d m (h.entered d m hm).1 (hnot m hm)
    · exact .inl ⟨hnone.trans hent.symm, fun m hm => by rw [hent] at hm; cases hm⟩
  · rw [hstate, hpending]
    exact h.running
  · rw [hstate, hstore, hpending]
    intro rest hrest
    obtain ⟨hstopped, hstored, hent, hsized⟩ := h.starting rest hrest
    refine ⟨hstopped, hstored, hent, fun psb hpsb slot hslot => hsized psb hpsb slot ?_⟩
    obtain ⟨stored, heq⟩ := hstored
    have hmem : psb ∈ sc.pendingRuntimeSessions := heq ▸ List.mem_append_right _ hpsb
    obtain ⟨slot', hslot'⟩ := Option.ne_none_iff_exists'.mp (h.pending psb hmem).2.2
    rw [hgrows.slotOf hslot'] at hslot
    rw [hslot', hslot]
  · rw [hstate]
    exact h.sweep
  · rw [hstate]
    intro p hp
    obtain ⟨hrunning, hent, hslot, hb⟩ := h.materializing p hp
    exact ⟨hrunning, hent, hgrows.slotOf_ne_none hslot,
      fun hb' => hb ((hgrows.bound_iff hslot).mp hb')⟩
  · rw [hstate]
    exact h.returning

theorem Aligned.not_stopping (h : Aligned r owner destroyed n sc act)
    (hlive : sc.scopeState = .running ∨ act.starting ≠ none) : sc.scopeState ≠ .stopping := by
  rcases hlive with hrunning | hstarting
  · rw [hrunning]
    exact nofun
  · obtain ⟨rest, hrest⟩ := Option.ne_none_iff_exists'.mp hstarting
    rw [(h.starting rest hrest).1]
    exact nofun

theorem find_eq_instances (h : Aligned r owner destroyed n sc act) (slot : SessionSlot) :
    sc.sessionStore.find (some slot) = sc.sessionStore.instances slot := by
  rw [SessionStore.find]
  split_ifs with hlt
  · rfl
  · by_contra hne
    exact hlt (h.fits slot fun hnone => hne hnone.symm)

/-- An instance is stored, and enters a cycle that has begun. -/
theorem Aligned.enter (h : Aligned r owner destroyed n sc act) (hnum : r.Numbered)
    (hbelow : r.SlotsBelow) (hlive : sc.scopeState = .running ∨ act.starting ≠ none)
    {d : DescriptorId} {m : Addr} {k : SessionSlot} (hk : r.sessionSlotOf d = some k)
    (hempty : act.entered d = none) (hm : owner m = some (n, d)) (halive : m ∉ destroyed)
    {c : ScopedContext}
    (hinstances : c.sessionStore.instances = update sc.sessionStore.instances k (some m))
    (hsize : sc.sessionStore.instancesSize ≤ c.sessionStore.instancesSize)
    (hfits : k < c.sessionStore.instancesSize)
    (hpending : c.pendingRuntimeSessions = sc.pendingRuntimeSessions)
    (hstate : c.scopeState = sc.scopeState) {a : Activity}
    (hentered : a.entered = update act.entered d (some m))
    (hstarting : ∀ rest, a.starting = some rest →
      ∃ stored, act.starting = some (stored ++ rest) ∧ ∀ psb ∈ rest, psb.descId ≠ d)
    (hsweep : a.sweep = act.sweep) (hmat : a.materializing.Sublist act.materializing)
    (hclaim : d ∉ a.materializing)
    (hreturning : ∀ p m', (p, m') ∈ a.returning →
      (p, m') ∈ act.returning ∨ sc.scopeState = .running ∧ p = d ∧ m' = m) :
    Aligned r owner destroyed n c a := by
  -- A cell of the new store is either slot `k` or one that was already filled.
  have hstored : ∀ slot, c.sessionStore.instances slot ≠ none →
      slot = k ∨ sc.sessionStore.instances slot ≠ none := by
    intro slot hslot
    rw [hinstances, Function.update_apply] at hslot
    split_ifs at hslot with heq
    · exact .inl heq
    · exact .inr hslot
  have hlive' : c.scopeState = .running ∨ a.starting ≠ none →
      sc.scopeState = .running ∨ act.starting ≠ none := fun _ => hlive
  obtain ⟨hread, hnot, hsized⟩ := h.live hlive
  refine ⟨?_, ?_, ?_, ?_, ?_, ?_, ?_, ?_, ?_, ?_, ?_, h.claimedOnce.sublist hmat, ?_⟩
  · intro slot hslot
    rcases hstored slot hslot with rfl | hold
    · exact hbelow.lt_of_slotOf hk
    · exact h.below slot hold
  · intro slot hslot
    rcases hstored slot hslot with rfl | hold
    · exact hfits
    · exact (h.fits slot hold).trans_le hsize
  · rw [hpending]
    exact h.pending
  · rw [hpending]
    exact h.nodup
  · intro d' m' hd'
    rw [hentered, Function.update_apply] at hd'
    split_ifs at hd' with heq
    · obtain rfl := Option.some.inj hd'
      exact ⟨heq ▸ hm, heq ▸ hk ▸ nofun⟩
    · exact h.entered d' m' hd'
  · intro _
    refine ⟨fun d' slot hslot => ?_, fun d' m' hd' => ?_, fun d' slot hslot hb => ?_⟩
    · rw [hinstances, hentered, Function.update_apply, Function.update_apply]
      -- Slots identify sessions, so the cell written is `d`'s and no other descriptor's.
      by_cases heq : d' = d
      · subst heq
        rw [hk] at hslot
        rw [if_pos (Option.some.inj hslot).symm, if_pos rfl]
      · have hne : slot ≠ k := fun hslot' => heq (hnum.distinct d' d slot hslot (hslot' ▸ hk))
        rw [if_neg hne, if_neg heq]
        exact hread d' slot hslot
    · rw [hentered, Function.update_apply] at hd'
      split_ifs at hd' with heq
      · obtain rfl := Option.some.inj hd'
        exact halive
      · exact hnot d' m' hd'
    · exact (hsized d' slot hslot hb).trans_le hsize
  · rw [hstate]
    exact fun hstopping => absurd hstopping (h.not_stopping hlive)
  · rw [hstate, hpending]
    exact h.running
  · intro rest hrest
    obtain ⟨stored, hact, hne⟩ := hstarting rest hrest
    -- `rest` is a suffix of what was left to store: none of it is `d`.
    obtain ⟨hstopped, ⟨before, heq⟩, hent, hfit⟩ := h.starting _ hact
    rw [hstate, hpending]
    refine ⟨hstopped, ⟨before ++ stored, ?_⟩, fun psb hpsb => ?_, fun psb hpsb slot hslot => ?_⟩
    · rw [heq, List.append_assoc]
    · rw [hentered, Function.update_of_ne (hne psb hpsb)]
      exact hent psb (List.mem_append_right _ hpsb)
    · exact (hfit psb (List.mem_append_right _ hpsb) slot hslot).trans_le hsize
  · rw [hsweep, hstate]
    exact h.sweep
  · intro p hp
    obtain ⟨hrunning, hent, hslot, hb⟩ := h.materializing p (hmat.subset hp)
    -- `d` gave its claim up, so the claims still open are of other descriptors.
    have hne : p ≠ d := fun heq => hclaim (heq ▸ hp)
    rw [hstate, hentered, Function.update_of_ne hne]
    exact ⟨hrunning, hent, hslot, hb⟩
  · intro p m' hp
    rw [hstate, hentered]
    rcases hreturning p m' hp with hold | ⟨hrunning, rfl, rfl⟩
    · obtain ⟨hrunning, hent⟩ := h.returning p m' hold
      -- A call on its way back has read its cell, and that of `d` was empty.
      have hne : p ≠ d := fun heq => by
        rw [heq, hempty] at hent
        cases hent
      rw [Function.update_of_ne hne]
      exact ⟨hrunning, hent⟩
    · exact ⟨hrunning, Function.update_self ..⟩

/-- An instance is bound for the next start. -/
theorem Aligned.bindPending (h : Aligned r owner destroyed n sc act)
    (hstate : sc.scopeState ≠ .running) (hidle : act.starting = none) {d : DescriptorId}
    {object : Addr} (hm : owner object = some (n, d)) (halive : object ∉ destroyed)
    (hslot : r.sessionSlotOf d ≠ none) (hnew : ∀ d, act.entered d ≠ some object)
    (hne : ∀ psb ∈ sc.pendingRuntimeSessions, psb.descId ≠ d) :
    Aligned r owner destroyed n { sc with
      pendingRuntimeSessions := sc.pendingRuntimeSessions ++ [⟨d, object⟩] } act := by
  refine ⟨h.below, h.fits, ?_, ?_, h.entered, h.live, fun hs => ⟨(h.stopping hs).1, ?_⟩,
    fun hs => absurd hs hstate, fun rest hrest => ?_, h.sweep, h.materializing, h.claimedOnce,
    h.returning⟩
  · exact List.forall_mem_append.mpr ⟨h.pending, List.forall_mem_singleton.mpr ⟨hm, halive, hslot⟩⟩
  · rw [List.map_append, List.nodup_append]
    refine ⟨h.nodup, List.nodup_singleton _, fun d' hd' d'' hd'' heq => ?_⟩
    obtain ⟨psb, hpsb, rfl⟩ := List.mem_map.mp hd'
    exact hne psb hpsb (heq.trans (List.mem_singleton.mp hd''))
  · exact List.forall_mem_append.mpr ⟨(h.stopping hs).2, List.forall_mem_singleton.mpr hnew⟩
  · rw [hidle] at hrest
    cases hrest

/-- A start begins: the store is empty, and so is the new cycle. -/
theorem Aligned.start (h : Aligned r owner destroyed n sc act) (hbelow : r.SlotsBelow)
    (hstate : sc.scopeState = .stopped) :
    Aligned r owner destroyed n (sc.beginStart r.sessionSlotCount)
      (act.start sc.pendingRuntimeSessions) := by
  have hstopped : (sc.beginStart r.sessionSlotCount).scopeState = .stopped := hstate
  refine ⟨fun _ hs => absurd rfl hs, fun _ hs => absurd rfl hs, h.pending, h.nodup, nofun, ?_,
    fun hs => ?_, fun hs => ?_, fun rest hrest => ?_, h.sweep, fun p hp => ?_, h.claimedOnce,
    fun p m hp => ?_⟩
  · exact fun _ => ⟨fun _ _ _ => rfl, nofun, fun d slot hslot _ => hbelow.lt_of_slotOf hslot⟩
  · rw [hstopped] at hs
    cases hs
  · rw [hstopped] at hs
    cases hs
  · obtain rfl := Option.some.inj hrest
    exact ⟨hstopped, ⟨[], rfl⟩, fun _ _ => rfl, fun psb _ slot hslot => hbelow.lt_of_slotOf hslot⟩
  · have hrunning := (h.materializing p hp).1
    rw [hstate] at hrunning
    cases hrunning
  · have hrunning := (h.returning p m hp).1
    rw [hstate] at hrunning
    cases hrunning

/-- A start stores the next pending instance. -/
theorem Aligned.storeNext (h : Aligned r owner destroyed n sc act) (hnum : r.Numbered)
    (hbelow : r.SlotsBelow) {psb : PendingRuntimeSession} {rest : List PendingRuntimeSession}
    (hstarting : act.starting = some (psb :: rest)) :
    Aligned r owner destroyed n (sc.storePending (r.sessionSlotOf psb.descId) psb)
      ((act.setStarting (some rest)).enter psb.descId psb.boundInstance) := by
  obtain ⟨hstopped, ⟨stored, heq⟩, hent, hfit⟩ := h.starting _ hstarting
  -- The binding stored next is one of the pending ones, still alive and with a slot.
  have hmem : psb ∈ sc.pendingRuntimeSessions := heq ▸ List.mem_append_right _ List.mem_cons_self
  obtain ⟨hm, halive, hslot⟩ := h.pending psb hmem
  obtain ⟨k, hk⟩ := Option.ne_none_iff_exists'.mp hslot
  -- No descriptor is bound twice before a start, so the bindings left are of others.
  have hrest : ∀ psb' ∈ rest, psb'.descId ≠ psb.descId := by
    have hnodup := h.nodup
    rw [heq, List.map_append, List.map_cons] at hnodup
    intro psb' hpsb' heq'
    refine (List.nodup_cons.mp (List.nodup_append.mp hnodup).2.1).1 ?_
    exact List.mem_map.mpr ⟨psb', hpsb', heq'⟩
  -- A scope that is not running yet has no materialization under way.
  have hnone : ∀ p, p ∉ act.materializing := by
    intro p hp
    have hrunning := (h.materializing p hp).1
    rw [hstopped] at hrunning
    cases hrunning
  refine h.enter (c := sc.storePending (r.sessionSlotOf psb.descId) psb)
    (a := (act.setStarting (some rest)).enter psb.descId psb.boundInstance) hnum hbelow
    (.inr (hstarting ▸ nofun)) hk (hent psb List.mem_cons_self) hm halive ?_ le_rfl
    (hfit psb List.mem_cons_self k hk) rfl rfl rfl (fun rest' hrest' => ?_) rfl
    (List.Sublist.refl _) (hnone _) fun p m hp => .inl hp
  · rw [hk]
    rfl
  · obtain rfl := Option.some.inj hrest'
    exact ⟨[psb], hstarting, hrest⟩

/-- A start returns. -/
theorem Aligned.startReturns (h : Aligned r owner destroyed n sc act)
    (hstarting : act.starting = some []) :
    Aligned r owner destroyed n sc.finishStart (act.setStarting none) := by
  have hstopped := (h.starting _ hstarting).1
  have hcycle := h.live (.inr (hstarting ▸ nofun))
  refine ⟨h.below, h.fits, nofun, List.nodup_nil, h.entered, fun _ => hcycle, nofun, fun _ => rfl,
    nofun, fun hs => ?_, fun p hp => ?_, h.claimedOnce, fun p m hp => ?_⟩
  · have hstopping := h.sweep hs
    rw [hstopped] at hstopping
    cases hstopping
  · exact ⟨rfl, (h.materializing p hp).2⟩
  · exact ⟨rfl, (h.returning p m hp).2⟩

/-- A listener throws, and so does the start. -/
theorem Aligned.startThrows (h : Aligned r owner destroyed n sc act)
    (hstarting : act.starting ≠ none) :
    Aligned r owner destroyed n sc (act.setStarting none) := by
  obtain ⟨rest, hrest⟩ := Option.ne_none_iff_exists'.mp hstarting
  refine ⟨h.below, h.fits, h.pending, h.nodup, h.entered, fun hlive => ?_, h.stopping, h.running,
    nofun, h.sweep, h.materializing, h.claimedOnce, h.returning⟩
  exact h.live (.inr hstarting)

/-- An instance is bound in a running scope. -/
theorem Aligned.bindRunning (h : Aligned r owner destroyed n sc act) (hnum : r.Numbered)
    (hbelow : r.SlotsBelow) (hrunning : sc.scopeState = .running) {d : DescriptorId}
    {object : Addr} (hm : owner object = some (n, d)) (halive : object ∉ destroyed)
    (hslot : r.sessionSlotOf d ≠ none) (hbound : Bound r d)
    (hfind : sc.sessionStore.find (r.sessionSlotOf d) = none) :
    Aligned r owner destroyed n { sc with
      sessionStore := sc.sessionStore.growAndStore (r.sessionSlotOf d) d object }
      (act.enter d object) := by
  obtain ⟨k, hk⟩ := Option.ne_none_iff_exists'.mp hslot
  rw [hk, find_eq_instances h] at hfind
  have hempty := ((h.live (.inl hrunning)).1 d k hk).symm.trans hfind
  have hclaim : d ∉ act.materializing := fun hd => (h.materializing d hd).2.2.2 hbound
  refine h.enter (c := { sc with
      sessionStore := sc.sessionStore.growAndStore (r.sessionSlotOf d) d object })
    (a := act.enter d object) hnum hbelow (.inl hrunning) hk hempty hm halive ?_ ?_ ?_ rfl rfl rfl
    (fun rest hrest => ?_) rfl (List.Sublist.refl _) hclaim fun p m hp => .inl hp
  · rw [hk]
    rfl
  · exact le_max_left _ _
  · rw [hk]
    exact (Nat.lt_succ_self k).trans_le (le_max_right _ _)
  · have hstopped := (h.starting rest hrest).1
    rw [hrunning] at hstopped
    cases hstopped

/-- A stop begins. -/
theorem Aligned.stop (h : Aligned r owner destroyed n sc act) (hrunning : sc.scopeState = .running)
    (hquiet : act.quiet = true) (sweep : Sweep) :
    Aligned r owner destroyed n sc.beginStop (act.setSweep (some sweep)) := by
  obtain ⟨hread, hnot, -⟩ := h.live (.inl hrunning)
  obtain ⟨hmat, hret⟩ : act.materializing = [] ∧ act.returning = [] := by
    simpa [Activity.quiet] using hquiet
  have hidle : act.starting = none := by
    by_contra hstarting
    obtain ⟨rest, hrest⟩ := Option.ne_none_iff_exists'.mp hstarting
    have hstopped := (h.starting rest hrest).1
    rw [hrunning] at hstopped
    cases hstopped
  have hpending : sc.beginStop.pendingRuntimeSessions = [] := h.running hrunning
  refine ⟨h.below, h.fits, h.pending, h.nodup, h.entered, fun hlive => ?_, fun _ => ⟨?_, ?_⟩, nofun,
    fun rest hrest => ?_, fun _ => rfl, ?_, h.claimedOnce, ?_⟩
  · exact (hlive.resolve_left nofun hidle).elim
  · exact fun d slot hslot => .inl ⟨hread d slot hslot, fun m hm => hnot d m hm⟩
  · rw [hpending]
    exact nofun
  · rw [show act.starting = some rest from hrest] at hidle
    cases hidle
  · rw [show (act.setSweep (some sweep)).materializing = [] from hmat]
    exact nofun
  · rw [show (act.setSweep (some sweep)).returning = [] from hret]
    exact nofun

/-- A scope that is stopping has nothing else under way. -/
theorem Aligned.idle_of_stopping (h : Aligned r owner destroyed n sc act)
    (hstopping : sc.scopeState = .stopping) :
    act.starting = none ∧ act.materializing = [] ∧ act.returning = [] := by
  refine ⟨?_, ?_, ?_⟩
  · by_contra hstarting
    obtain ⟨rest, hrest⟩ := Option.ne_none_iff_exists'.mp hstarting
    have hstopped := (h.starting rest hrest).1
    rw [hstopping] at hstopped
    cases hstopped
  · refine List.eq_nil_iff_forall_not_mem.mpr fun p hp => ?_
    have hrunning := (h.materializing p hp).1
    rw [hstopping] at hrunning
    cases hrunning
  · refine List.eq_nil_iff_forall_not_mem.mpr fun ⟨p, m⟩ hp => ?_
    have hrunning := (h.returning p m hp).1
    rw [hstopping] at hrunning
    cases hrunning

theorem destroyInstance_of_find {slot : Option SessionSlot} {m : Addr} {k : SessionSlot}
    (hslot : slot = some k) (hfind : sc.sessionStore.find slot = some m) (d : DescriptorId)
    (deferDeallocation : Bool) :
    (sc.destroyInstance slot d deferDeallocation).sessionStore.instances =
        update sc.sessionStore.instances k none ∧
      (sc.destroyInstance slot d deferDeallocation).sessionStore.instancesSize =
        sc.sessionStore.instancesSize ∧
      (sc.destroyInstance slot d deferDeallocation).pendingRuntimeSessions =
        sc.pendingRuntimeSessions ∧
      (sc.destroyInstance slot d deferDeallocation).scopeState = sc.scopeState := by
  subst hslot
  rw [ScopedContext.destroyInstance, hfind]
  cases deferDeallocation <;> exact ⟨rfl, rfl, rfl, rfl⟩

/-- A stop has destroyed the next instance. -/
theorem Aligned.destroyNext (h : Aligned r owner destroyed n sc act) (hnum : r.Numbered)
    (hstopping : sc.scopeState = .stopping) (d : DescriptorId) (deferDeallocation : Bool)
    (sweep : Sweep) :
    Aligned r owner (destroyed ++ (sc.sessionStore.find (r.sessionSlotOf d)).toList) n
      (sc.destroyInstance (r.sessionSlotOf d) d deferDeallocation) (act.setSweep (some sweep)) := by
  obtain ⟨hidle, hmat, hret⟩ := h.idle_of_stopping hstopping
  cases hfind : sc.sessionStore.find (r.sessionSlotOf d) with
  | none =>
    rw [ScopedContext.destroyInstance, hfind]
    simp only [Option.toList_none, List.append_nil]
    exact ⟨h.below, h.fits, h.pending, h.nodup, h.entered, h.live, h.stopping, h.running,
      h.starting, fun _ => hstopping, h.materializing, h.claimedOnce, h.returning⟩
  | some m =>
    obtain ⟨k, hk⟩ : ∃ k, r.sessionSlotOf d = some k := by
      cases hslot : r.sessionSlotOf d with
      | none =>
        rw [hslot] at hfind
        cases hfind
      | some k => exact ⟨k, rfl⟩
    obtain ⟨hinstances, hsize, hpending, hstate⟩ :=
      destroyInstance_of_find hk hfind d deferDeallocation
    have hstored : sc.sessionStore.instances k = some m := by
      rw [← find_eq_instances h, ← hk]
      exact hfind
    obtain ⟨hread, hapart⟩ := h.stopping hstopping
    -- The instance has entered the cycle for this descriptor, and for no other one.
    have hm : act.entered d = some m := by
      rcases hread d k hk with ⟨heq, -⟩ | ⟨heq, -⟩
      · rw [← heq, hstored]
      · rw [hstored] at heq
        cases heq
    have hother : ∀ d' m', act.entered d' = some m' → d' ≠ d → m' ≠ m := by
      rintro d' m' hd' hne rfl
      have howner := (h.entered d' m' hd').1.symm.trans (h.entered d m' hm).1
      exact hne (Prod.mk.inj (Option.some.inj howner)).2
    have hold : ∀ slot, (sc.destroyInstance (r.sessionSlotOf d) d
        deferDeallocation).sessionStore.instances slot ≠ none →
        sc.sessionStore.instances slot ≠ none := by
      intro slot hslot
      rw [hinstances, Function.update_apply] at hslot
      split_ifs at hslot
      · exact absurd rfl hslot
      · exact hslot
    have hmem : ∀ m', m' ∉ destroyed → m' ≠ m → m' ∉ destroyed ++ (some m).toList := by
      intro m' hnot hne hmem
      rcases List.mem_append.mp hmem with hmem | hmem
      · exact hnot hmem
      · exact hne (List.mem_singleton.mp hmem)
    refine ⟨fun slot hslot => h.below slot (hold slot hslot), fun slot hslot => ?_, ?_, ?_,
      h.entered, ?_, ?_, ?_, ?_, ?_, ?_, h.claimedOnce, ?_⟩
    · rw [hsize]
      exact h.fits slot (hold slot hslot)
    · rw [hpending]
      intro psb hpsb
      obtain ⟨howner, hnot, hslot⟩ := h.pending psb hpsb
      refine ⟨howner, hmem _ hnot fun heq => hapart psb hpsb d ?_, hslot⟩
      rw [hm, heq]
    · rw [hpending]
      exact h.nodup
    · rw [hstate]
      rintro (hrunning | hstarting)
      · rw [hstopping] at hrunning
        cases hrunning
      · exact absurd hidle hstarting
    · rw [hpending]
      refine fun _ => ⟨fun d' slot hslot => ?_, hapart⟩
      rw [hinstances, Function.update_apply]
      by_cases hd : d' = d
      · subst hd
        rw [hk] at hslot
        rw [if_pos (Option.some.inj hslot).symm]
        exact .inr ⟨rfl, m, List.mem_append_right _ (List.mem_singleton_self m), hm⟩
      · have hne : slot ≠ k := fun heq => hd (hnum.distinct d' d slot hslot (heq ▸ hk))
        rw [if_neg hne]
        refine (hread d' slot hslot).imp (fun ⟨heq, hnot⟩ => ⟨heq, fun m' hm' => ?_⟩)
          fun ⟨heq, m', hm', hd'⟩ => ⟨heq, m', List.mem_append_left _ hm', hd'⟩
        exact hmem m' (hnot m' hm') (hother d' m' hm' hd)
    · rw [hstate, hstopping]
      exact nofun
    · intro rest hrest
      rw [show act.starting = some rest from hrest] at hidle
      cases hidle
    · rw [hstate]
      exact fun _ => hstopping
    · rw [show (act.setSweep (some sweep)).materializing = [] from hmat]
      exact nofun
    · rw [show (act.setSweep (some sweep)).returning = [] from hret]
      exact nofun

/-- A stop returns. -/
theorem Aligned.stopReturns (h : Aligned r owner destroyed n sc act)
    (hstopping : sc.scopeState = .stopping) (deferDeallocation : Bool) :
    Aligned r owner destroyed n (sc.finishStop deferDeallocation) (act.setSweep none) := by
  obtain ⟨hidle, hmat, hret⟩ := h.idle_of_stopping hstopping
  refine ⟨fun _ hs => absurd rfl hs, fun _ hs => absurd rfl hs, h.pending, h.nodup, h.entered,
    fun hlive => ?_, nofun, nofun, fun rest hrest => ?_, fun hs => absurd rfl hs, ?_, h.claimedOnce,
    ?_⟩
  · exact (hlive.resolve_left nofun hidle).elim
  · rw [show act.starting = some rest from hrest] at hidle
    cases hidle
  · rw [show (act.setSweep none).materializing = [] from hmat]
    exact nofun
  · rw [show (act.setSweep none).returning = [] from hret]
    exact nofun

/-- A materialization begins. -/
theorem Aligned.claim (h : Aligned r owner destroyed n sc act) (hrunning : sc.scopeState = .running)
    {p : DescriptorId} (hslot : r.sessionSlotOf p ≠ none) (hbound : ¬Bound r p)
    (hfind : sc.sessionStore.find (r.sessionSlotOf p) = none) (hnew : p ∉ act.materializing) :
    Aligned r owner destroyed n sc (act.claim p) := by
  obtain ⟨k, hk⟩ := Option.ne_none_iff_exists'.mp hslot
  rw [hk, find_eq_instances h] at hfind
  have hempty := ((h.live (.inl hrunning)).1 p k hk).symm.trans hfind
  refine ⟨h.below, h.fits, h.pending, h.nodup, h.entered, h.live, h.stopping, h.running, h.starting,
    h.sweep, ?_, List.nodup_cons.mpr ⟨hnew, h.claimedOnce⟩, h.returning⟩
  exact List.forall_mem_cons.mpr ⟨⟨hrunning, hempty, hslot, hbound⟩, h.materializing⟩

/-- A constructor has returned, and its object is stored. -/
theorem Aligned.constructed (h : Aligned r owner destroyed n sc act) (hnum : r.Numbered)
    (hbelow : r.SlotsBelow) {p : DescriptorId} (hp : p ∈ act.materializing) {m : Addr}
    (hm : owner m = some (n, p)) (halive : m ∉ destroyed) :
    Aligned r owner destroyed n (sc.storePending (r.sessionSlotOf p) ⟨p, m⟩)
      (((act.release p).setReturning ((p, m) :: act.returning)).enter p m) := by
  obtain ⟨hrunning, hempty, hslot, hbound⟩ := h.materializing p hp
  obtain ⟨k, hk⟩ := Option.ne_none_iff_exists'.mp hslot
  refine h.enter (c := sc.storePending (r.sessionSlotOf p) ⟨p, m⟩)
    (a := ((act.release p).setReturning ((p, m) :: act.returning)).enter p m) hnum hbelow
    (.inl hrunning) hk hempty hm halive ?_ le_rfl
    ((h.live (.inl hrunning)).2.2 p k hk hbound) rfl rfl rfl (fun rest hrest => ?_) rfl
    List.erase_sublist (h.claimedOnce.not_mem_erase) fun p' m' hp' => ?_
  · rw [hk]
    rfl
  · have hstopped := (h.starting rest hrest).1
    rw [hrunning] at hstopped
    cases hstopped
  · rcases List.mem_cons.mp hp' with heq | hold
    · exact .inr ⟨hrunning, Prod.mk.inj heq⟩
    · exact .inl hold

/-- A claim ends without an instance. -/
theorem Aligned.release (h : Aligned r owner destroyed n sc act) (p : DescriptorId) :
    Aligned r owner destroyed n sc (act.release p) :=
  ⟨h.below, h.fits, h.pending, h.nodup, h.entered, h.live, h.stopping, h.running, h.starting,
    h.sweep, fun p' hp' => h.materializing p' (List.mem_of_mem_erase hp'),
    h.claimedOnce.sublist List.erase_sublist, h.returning⟩

/-- A materialization returns. -/
theorem Aligned.returns (h : Aligned r owner destroyed n sc act) (x : DescriptorId × Addr) :
    Aligned r owner destroyed n sc (act.setReturning (act.returning.erase x)) :=
  ⟨h.below, h.fits, h.pending, h.nodup, h.entered, h.live, h.stopping, h.running, h.starting,
    h.sweep, h.materializing, h.claimedOnce,
    fun p m hp => h.returning p m (List.mem_of_mem_erase hp)⟩

end Aligned

end Ctorium.Sessions
