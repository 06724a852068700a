import Ctorium.WaitSlots.Tables
import Mathlib.Data.List.Nodup

/-!
# Thread tokens

* `tokens_sound`: in every run in which the counter of tokens does not wrap, no two live threads
  have one token, the slot of a thread that waits or is about to claim is there, every step keeps
  the slots of the other threads, and a thread that gets a token finds its slot inactive in every
  registry.
* `token_shared`: the counter has 32 bits, and a token is lost when there is no memory to give it
  back. After 2^32 - 1 lost tokens a new thread gets a token that a live thread has.

A token is free, or of a live thread, or lost; the free ones and those of live threads are
apart (`Tokens`). With `Tables.active`, an active slot belongs to a thread that waits, so the
slot of a token that no thread has is inactive wherever it was used.
-/

namespace Ctorium.WaitSlots

open Function
open Materialization (MaterializationKey MaterializationWait)

variable {registryId : RegistryRef → UInt32} {s s₁ s' : State} {r : RegistryRef}
  {reg reg' : Registry} {t u : ThreadId} {th th' thu : Thread} {x : UInt32}
  {wait : MaterializationWait} {a : Action}

/-! ## Statement -/

/-- The thread is in a call of `claimMaterializationOrWait`. -/
def Thread.InCall (th : Thread) : Prop :=
  th.pc ≠ .idle ∧ ∀ rest, th.pc ≠ .exiting rest

/-- The thread enters a call, and the step takes a token for it. -/
def Action.TakesToken (s : State) (a : Action) (t : ThreadId) : Prop :=
  ∃ r th, a = .enter t r ∧ s.threads t = some th ∧ th.token = kNoMaterializationThreadToken

/-- A token is taken from the counter only before the counter wraps. -/
def CounterLeft (s : State) (a : Action) : Prop :=
  ∀ t, a.TakesToken s t → s.freeTokens = [] → s.nextToken.toNat + 1 < 2 ^ 32

/-- What holds in a state. -/
structure SlotsSound (s : State) : Prop where
  /-- No two live threads have one token. -/
  distinct : ∀ t u th thu, s.threads t = some th → s.threads u = some thu →
    th.token = thu.token → th.token ≠ kNoMaterializationThreadToken → t = u
  /-- A thread in a call has a token. -/
  inCall : ∀ t th, s.threads t = some th → th.InCall → th.token ≠ kNoMaterializationThreadToken
  /-- After `ensureMaterializationWaitSlot`, the slot is there for as long as the registry is. -/
  ensured : ∀ t th r, s.threads t = some th → th.NeedsSlot r →
    ∀ reg, s.registries r = some reg → reg.HasWaitSlot th.token

/-- What holds of a step. -/
structure StepSound (s : State) (a : Action) (s' : State) : Prop where
  /-- The slots stay, and the growth of a table keeps their edges; only a thread that claims,
      wakes up or exits changes a slot, its own. -/
  keeps : ∀ r reg reg', s.registries r = some reg → s'.registries r = some reg' →
    Keeps reg reg' ((a.thread?.bind s.threads).bind a.writes)
  /-- The slot of a token that a thread gets is inactive in every registry. -/
  inactive : ∀ t th', a.TakesToken s t → s'.threads t = some th' →
    ∀ r reg wait, s'.registries r = some reg → reg.waitSlot th'.token = some wait →
      wait.active = false

/-! ## The invariant -/

/-- The free tokens and those of the live threads are apart, and none is above the counter. -/
structure Tokens (s : State) : Prop where
  nodup : s.freeTokens.Nodup
  free : ∀ x ∈ s.freeTokens, x ≠ kNoMaterializationThreadToken ∧ x ≤ s.nextToken
  held : ∀ t th, s.threads t = some th → th.token ≠ kNoMaterializationThreadToken →
    th.token ≤ s.nextToken ∧ th.token ∉ s.freeTokens
  distinct : ∀ t u th thu, s.threads t = some th → s.threads u = some thu →
    th.token = thu.token → th.token ≠ kNoMaterializationThreadToken → t = u
  inCall : ∀ t th, s.threads t = some th → th.InCall → th.token ≠ kNoMaterializationThreadToken

namespace Tokens

theorem initial : Tokens {} :=
  ⟨List.nodup_nil, by simp, by simp, by simp, by simp⟩

/-- A thread goes on with its token. -/
theorem goOn (h : Tokens s) (ht : s.threads t = some th) (hthreads : s₁.threads = s.threads)
    (hfree : s₁.freeTokens = s.freeTokens) (hnext : s₁.nextToken = s.nextToken)
    (htoken : th'.token = th.token) (hcall : th'.InCall → th.InCall) :
    Tokens (s₁.setThread t (some th')) := by
  have hget : ∀ u thu, (s₁.setThread t (some th')).threads u = some thu →
      ∃ thu', s.threads u = some thu' ∧ thu.token = thu'.token ∧ (thu.InCall → thu'.InCall) := by
    intro u thu hu
    by_cases hut : u = t
    · subst hut
      rw [setThread_self] at hu
      obtain rfl := Option.some.inj hu
      exact ⟨th, ht, htoken, hcall⟩
    · rw [setThread_of_ne hut, hthreads] at hu
      exact ⟨thu, hu, rfl, id⟩
  refine ⟨hfree ▸ h.nodup, fun x hx => ?_, fun u thu hu hne => ?_,
    fun u v thu thv hu hv heq hne => ?_, fun u thu hu hin => ?_⟩
  · exact hnext ▸ h.free x (hfree ▸ hx)
  · obtain ⟨thu', hu', heq, -⟩ := hget u thu hu
    rw [heq] at hne ⊢
    obtain ⟨hle, hmem⟩ := h.held u thu' hu' hne
    exact ⟨hnext ▸ hle, fun hx => hmem (hfree ▸ hx)⟩
  · obtain ⟨thu', hu', hequ, -⟩ := hget u thu hu
    obtain ⟨thv', hv', heqv, -⟩ := hget v thv hv
    exact h.distinct u v thu' thv' hu' hv' (hequ ▸ heqv ▸ heq) (hequ ▸ hne)
  · obtain ⟨thu', hu', heq, hcall⟩ := hget u thu hu
    exact heq ▸ h.inCall u thu' hu' (hcall hin)

/-- A thread gets a token that no live thread has. -/
theorem take (h : Tokens s) (hnodup : s₁.freeTokens.Nodup)
    (hsub : ∀ y ∈ s₁.freeTokens, y ∈ s.freeTokens ∧ y ≠ th'.token)
    (hle : s.nextToken ≤ s₁.nextToken) (hthreads : s₁.threads = s.threads)
    (hnew : th'.token ≠ kNoMaterializationThreadToken ∧ th'.token ≤ s₁.nextToken)
    (hother : ∀ u thu, u ≠ t → s.threads u = some thu → thu.token ≠ th'.token) :
    Tokens (s₁.setThread t (some th')) := by
  refine ⟨hnodup, fun y hy => ?_, fun u thu hu hne => ?_, fun u v thu thv hu hv heq hne => ?_,
    fun u thu hu hin => ?_⟩
  · obtain ⟨hne, hy⟩ := h.free y (hsub y hy).1
    exact ⟨hne, UInt32.le_trans hy hle⟩
  · by_cases hut : u = t
    · rw [hut, setThread_self] at hu
      obtain rfl := Option.some.inj hu
      exact ⟨hnew.2, fun hy => (hsub _ hy).2 rfl⟩
    · rw [setThread_of_ne hut, hthreads] at hu
      obtain ⟨hy, hmem⟩ := h.held u thu hu hne
      exact ⟨UInt32.le_trans hy hle, fun hy => hmem (hsub _ hy).1⟩
  -- Two threads with one token: the new one would have a token that nobody else has.
  · by_cases hut : u = t <;> by_cases hvt : v = t
    · exact hut.trans hvt.symm
    · rw [hut, setThread_self] at hu
      rw [setThread_of_ne hvt, hthreads] at hv
      obtain rfl := Option.some.inj hu
      exact absurd heq.symm (hother v thv hvt hv)
    · rw [hvt, setThread_self] at hv
      rw [setThread_of_ne hut, hthreads] at hu
      obtain rfl := Option.some.inj hv
      exact absurd heq (hother u thu hut hu)
    · rw [setThread_of_ne hut, hthreads] at hu
      rw [setThread_of_ne hvt, hthreads] at hv
      exact h.distinct u v thu thv hu hv heq hne
  · by_cases hut : u = t
    · rw [hut, setThread_self] at hu
      obtain rfl := Option.some.inj hu
      exact hnew.1
    · rw [setThread_of_ne hut, hthreads] at hu
      exact h.inCall u thu hu hin

/-- A thread enters a call. -/
theorem enter (h : Tokens s) (ht : s.threads t = some th)
    (hleft : th.token = kNoMaterializationThreadToken → s.freeTokens = [] →
      s.nextToken.toNat + 1 < 2 ^ 32) :
    Tokens ((materializationThreadToken s th).2.setThread t
      (some { th with token := (materializationThreadToken s th).1, pc := .noting r })) := by
  unfold materializationThreadToken
  split_ifs with htoken
  · -- The thread has its token already.
    refine h.take h.nodup (fun y hy => ⟨hy, ?_⟩) (UInt32.le_refl _) rfl
      ⟨htoken, (h.held t th ht htoken).1⟩ fun u thu hut hu heq => ?_
    · rintro rfl
      exact (h.held t th ht htoken).2 hy
    · exact hut (h.distinct u t thu th hu ht heq (heq ▸ htoken))
  · cases hfree : s.freeTokens with
    | cons token rest =>
      have hnodup := h.nodup
      have hmem : token ∈ s.freeTokens := hfree ▸ List.mem_cons_self
      rw [hfree, List.nodup_cons] at hnodup
      refine h.take hnodup.2 (fun y hy => ⟨hfree ▸ List.mem_cons_of_mem _ hy, ?_⟩)
        (UInt32.le_refl _) rfl (h.free token hmem) fun u thu _ hu heq => ?_
      · rintro rfl
        exact hnodup.1 hy
      · exact (h.held u thu hu (heq ▸ (h.free token hmem).1)).2 (heq ▸ hmem)
    | nil =>
      -- The counter gives a token above all tokens so far.
      have hlt := hleft (not_not.mp htoken) hfree
      have hnext : (s.nextToken + 1).toNat = s.nextToken.toNat + 1 := by
        rw [UInt32.toNat_add]
        exact Nat.mod_eq_of_lt hlt
      have hle : s.nextToken ≤ s.nextToken + 1 :=
        UInt32.le_iff_toNat_le.mpr (hnext ▸ Nat.le_succ _)
      have hne : s.nextToken + 1 ≠ kNoMaterializationThreadToken := by
        intro heq
        rw [heq] at hnext
        exact absurd hnext (Nat.succ_ne_zero _).symm
      refine h.take List.nodup_nil (fun y hy => by cases hy) hle rfl ⟨hne, UInt32.le_refl _⟩
        fun u thu _ hu heq => ?_
      have hbound := (h.held u thu hu (heq ▸ hne)).1
      rw [heq, UInt32.le_iff_toNat_le, hnext] at hbound
      exact absurd hbound (Nat.not_succ_le_self _)

/-- A new thread has no token. -/
theorem start (h : Tokens s) : Tokens (s.setThread t (some {})) := by
  refine ⟨h.nodup, h.free, fun u thu hu hne => ?_, fun u v thu thv hu hv heq hne => ?_,
    fun u thu hu hin => ?_⟩
  · by_cases hut : u = t
    · rw [hut, setThread_self] at hu
      obtain rfl := Option.some.inj hu
      exact absurd rfl hne
    · exact h.held u thu ((setThread_of_ne hut).symm.trans hu) hne
  · have hold : ∀ {w thw}, (s.setThread t (some {})).threads w = some thw →
        thw.token ≠ kNoMaterializationThreadToken → s.threads w = some thw := by
      intro w thw hw hne
      by_cases hwt : w = t
      · rw [hwt, setThread_self] at hw
        obtain rfl := Option.some.inj hw
        exact absurd rfl hne
      · exact (setThread_of_ne hwt).symm.trans hw
    exact h.distinct u v thu thv (hold hu hne) (hold hv (heq ▸ hne)) heq hne
  · by_cases hut : u = t
    · rw [hut, setThread_self] at hu
      obtain rfl := Option.some.inj hu
      exact absurd rfl hin.1
    · exact h.inCall u thu ((setThread_of_ne hut).symm.trans hu) hin

/-- A thread exits, and its token becomes free or is lost. -/
theorem recycle (h : Tokens s) (ht : s.threads t = some th) {freeTokens : List UInt32}
    (hfree : freeTokens = s.freeTokens ∨
      (th.token ≠ kNoMaterializationThreadToken ∧ freeTokens = th.token :: s.freeTokens)) :
    Tokens ({ s with nextToken := s.nextToken, freeTokens := freeTokens }.setThread t none) := by
  -- The thread that ends is out of the account from here on.
  have hold : ∀ {u thu}, ({ s with
        nextToken := s.nextToken, freeTokens := freeTokens }.setThread t none).threads u =
      some thu → u ≠ t ∧ s.threads u = some thu := by
    intro u thu hu
    by_cases hut : u = t
    · rw [hut, setThread_self] at hu
      cases hu
    · exact ⟨hut, (setThread_of_ne hut).symm.trans hu⟩
  refine ⟨?_, fun x hx => ?_, fun u thu hu hne => ?_, fun u v thu thv hu hv heq hne => ?_,
    fun u thu hu hin => ?_⟩
  · rcases hfree with rfl | ⟨htoken, rfl⟩
    · exact h.nodup
    · exact List.nodup_cons.mpr ⟨(h.held t th ht htoken).2, h.nodup⟩
  · rcases hfree with rfl | ⟨htoken, rfl⟩
    · exact h.free x hx
    · rcases List.mem_cons.mp hx with rfl | hx
      · exact ⟨htoken, (h.held t th ht htoken).1⟩
      · exact h.free x hx
  · obtain ⟨hut, hu'⟩ := hold hu
    obtain ⟨hle, hmem⟩ := h.held u thu hu' hne
    refine ⟨hle, fun hx => ?_⟩
    rcases hfree with rfl | ⟨htoken, rfl⟩
    · exact hmem hx
    · rcases List.mem_cons.mp hx with heq | hx
      -- The token that comes back was held by no other thread.
      · exact hut (h.distinct u t thu th hu' ht heq hne)
      · exact hmem hx
  · exact h.distinct u v thu thv (hold hu).2 (hold hv).2 heq hne
  · exact h.inCall u thu (hold hu).2 hin

/-- A step of a thread. -/
theorem threadStep (h : Tokens s) (ht : s.threads t = some th) (ha : a.thread? = some t)
    (hleft : CounterLeft s a) (hs : WaitSlots.threadStep registryId s t th a = some s') :
    Tokens s' := by
  -- The thread keeps its token, except where it takes one or gives it back.
  cases a with
  | construct | destroy r | start u => cases hs
  | enter u r =>
    obtain rfl := Option.some.inj ha
    obtain ⟨-, hs⟩ := Option.ite_none_right_eq_some.mp hs
    obtain rfl := Option.some.inj hs
    exact h.enter ht fun htoken => hleft u ⟨r, th, rfl, ht, htoken⟩
  | note u memory =>
    obtain ⟨r, hpc, registered, pc, rfl, -⟩ := note_cases hs
    exact h.goOn ht rfl rfl rfl rfl fun _ => by simp [Thread.InCall, hpc]
  | ensure u memory =>
    obtain ⟨r, reg, hpc, -, -, hnext⟩ := ensure_cases registryId hs
    rcases hnext with ⟨-, rfl⟩ | ⟨-, rfl⟩ | rfl <;>
      exact h.goOn ht rfl rfl rfl rfl fun _ => by simp [Thread.InCall, hpc]
  | publish u =>
    obtain ⟨r, grown, reg, hpc, -, rfl⟩ := publish_cases registryId hs
    exact h.goOn ht rfl rfl rfl rfl fun _ => by simp [Thread.InCall, hpc]
  | claim u wait =>
    obtain ⟨r, reg, hpc, -, hnext⟩ := claim_cases registryId hs
    rcases hnext with ⟨reg', -, rfl⟩ | ⟨key, reg', -, rfl⟩ <;>
      exact h.goOn ht rfl rfl rfl rfl fun _ => by simp [Thread.InCall, hpc]
  | wake u again =>
    obtain ⟨r, key, reg, hpc, -, hnext⟩ := wake_cases registryId hs
    rcases hnext with ⟨reg', -, rfl⟩ | ⟨wait, reg', -, rfl⟩
    · have hsame : (s.setRegistry r (some reg')).setThread t (some th) =
          s.setRegistry r (some reg') := setThread_same ht
      exact hsame ▸ h.goOn ht rfl rfl rfl rfl id
    · exact h.goOn ht rfl rfl rfl rfl fun _ => by simp [Thread.InCall, hpc]
  | exit u order =>
    obtain ⟨-, hs⟩ := Option.ite_none_right_eq_some.mp hs
    obtain rfl := Option.some.inj hs
    exact h.goOn ht rfl rfl rfl rfl fun hin => absurd rfl (hin.2 order)
  | clear u =>
    obtain ⟨r, rest, -, hnext⟩ := clear_cases registryId hs
    rcases hnext with ⟨-, rfl⟩ | ⟨reg, reg', -, -, rfl⟩ <;>
      exact h.goOn ht rfl rfl rfl rfl fun hin => absurd rfl (hin.2 rest)
  | recycle u memory =>
    obtain ⟨-, freeTokens, hfree, rfl⟩ := recycle_cases registryId hs
    exact h.recycle ht hfree

/-- A step of the process. -/
theorem step (h : Tokens s) (hleft : CounterLeft s a)
    (hs : WaitSlots.step registryId s a = some s') : Tokens s' := by
  rcases step_cases hs with ⟨-, rfl⟩ | ⟨r, -, rfl⟩ | ⟨t, -, -, rfl⟩ | ⟨t, th, ha, ht, hs⟩
  · exact ⟨h.nodup, h.free, h.held, h.distinct, h.inCall⟩
  · exact ⟨h.nodup, h.free, h.held, h.distinct, h.inCall⟩
  · exact h.start
  · exact h.threadStep ht ha hleft hs

end Tokens

/-! ## In every run -/

/-- The invariant of all runs in which the counter does not wrap. -/
structure Inv (s : State) : Prop where
  tables : Tables s
  tokens : Tokens s

theorem inv_of_reachableBy (h : (machine registryId).ReachableBy CounterLeft s) : Inv s :=
  h.invariant (fun _ hs => hs ▸ ⟨.initial, .initial⟩)
    fun _ _ _ hinv hleft hs => ⟨hinv.tables.step hs, hinv.tokens.step hleft hs⟩

/-- The token that a thread has got is that of no thread that waits. -/
theorem inactive_of_takesToken (htables : Tables s') (htokens : Tokens s')
    (htakes : a.TakesToken s t) (hs : step registryId s a = some s')
    (ht' : s'.threads t = some th') (hreg : s'.registries r = some reg)
    (hwait : reg.waitSlot th'.token = some wait) : wait.active = false := by
  obtain ⟨r', th, rfl, ht, -⟩ := htakes
  have hpc' : th'.pc = .noting r' := by
    change (Option.bind (s.threads t) fun th =>
      threadStep registryId s t th (.enter t r')) = _ at hs
    rw [ht, Option.bind_some] at hs
    obtain ⟨-, hs⟩ := Option.ite_none_right_eq_some.mp hs
    obtain rfl := Option.some.inj hs
    obtain rfl := Option.some.inj (setThread_self.symm.trans ht')
    rfl
  by_contra hactive
  obtain ⟨u, thu, key, hu, htoken, hpc⟩ :=
    htables.active r reg th'.token wait hreg hwait (Bool.not_eq_false _ ▸ hactive)
  have hcall : th'.InCall := by simp [Thread.InCall, hpc']
  have hut := htokens.distinct t u th' thu ht' hu htoken.symm (htokens.inCall t th' ht' hcall)
  subst hut
  obtain rfl := Option.some.inj (ht'.symm.trans hu)
  rw [hpc'] at hpc
  cases hpc

/-- Thread tokens and wait slots are sound in every run in which the counter does not wrap. -/
theorem tokens_sound (registryId : RegistryRef → UInt32) (s : State)
    (h : (machine registryId).ReachableBy CounterLeft s) :
    SlotsSound s ∧ ∀ a s', CounterLeft s a → step registryId s a = some s' → StepSound s a s' := by
  obtain ⟨htables, htokens⟩ := inv_of_reachableBy h
  refine ⟨⟨htokens.distinct, htokens.inCall, htables.ensured⟩, fun a s' hleft hs => ⟨?_, ?_⟩⟩
  · exact fun r reg reg' hreg hreg' => htables.keeps hs hreg hreg'
  · exact fun t th' htakes ht' r reg wait hreg hwait =>
      inactive_of_takesToken (htables.step hs) (htokens.step hleft hs) htakes hs ht' hreg hwait

/-! ## A token that goes from one thread to the next -/

/-- Registries get their identifiers in the order of construction, from 1 on. -/
def inOrder (r : RegistryRef) : UInt32 := UInt32.ofNat (r + 1)

/-- A thread materializes a bean and exits; the next thread gets its token. -/
def handover : List Action :=
  [.construct, .start 0, .enter 0 0, .note 0 true, .ensure 0 true, .publish 0, .claim 0 none,
    .exit 0 [0], .clear 0, .recycle 0 true, .start 1, .enter 1 0]

theorem counterLeft_of_lt (h : s.nextToken.toNat + 1 < 2 ^ 32) (a : Action) : CounterLeft s a :=
  fun _ _ _ => h

theorem tokens_sound_handover :
    ∃ s, (machine inOrder).run {} handover = some s ∧ (s.threads 1).map Thread.token = some 1 ∧
      SlotsSound s ∧ ∀ a s', CounterLeft s a → step inOrder s a = some s' → StepSound s a s' := by
  have halong : (machine inOrder).Along (fun s _ => s.nextToken.toNat + 1 < 2 ^ 32) {}
    handover := by
    decide +kernel
  refine ⟨_, rfl, rfl, tokens_sound inOrder _ ?_⟩
  exact Machine.ReachableBy.run (.init rfl) (halong.mono fun s a h => counterLeft_of_lt h a) rfl

/-! ## A token of two threads -/

/-- A thread gets a token, leaves the call for want of memory and exits, and there is no memory
    to give the token back. -/
def loseToken : List Action :=
  [.start 1, .enter 1 0, .note 1 false, .exit 1 [], .recycle 1 false]

theorem run_loseToken (hreg : (s.registries 0).isSome) (hfree : s.freeTokens = [])
    (hthread : s.threads 1 = none) :
    (machine registryId).run s loseToken = some { s with nextToken := s.nextToken + 1 } := by
  have hsame : update s.threads 1 none = s.threads := hthread ▸ update_eq_self 1 s.threads
  simp [loseToken, machine, step, threadStep, Action.thread?, State.setThread, hthread, hreg,
    materializationThreadToken, hfree, hsame]

theorem run_loseTokens (n : ℕ) (hreg : (s.registries 0).isSome) (hfree : s.freeTokens = [])
    (hthread : s.threads 1 = none) :
    (machine registryId).run s (List.replicate n loseToken).flatten =
      some { s with nextToken := s.nextToken + UInt32.ofNat n } := by
  induction n generalizing s with
  | zero => simp
  | succ n ih =>
    have hrest : (machine registryId).run { s with nextToken := s.nextToken + 1 }
        (List.replicate n loseToken).flatten =
        some { s with nextToken := s.nextToken + 1 + UInt32.ofNat n } := ih hreg hfree hthread
    rw [List.replicate_succ, List.flatten_cons,
      Machine.run_append (run_loseToken hreg hfree hthread), hrest]
    have hnext : s.nextToken + 1 + UInt32.ofNat n = s.nextToken + UInt32.ofNat (n + 1) := by
      rw [UInt32.ofNat_add, UInt32.add_assoc, UInt32.add_comm 1]
      rfl
    rw [hnext]

/-- The first thread gets its token, the tokens up to the wrap of the counter are lost, and the
    next thread gets the token of the first one. -/
def shareToken : List Action :=
  [.construct, .start 0, .enter 0 0] ++ (List.replicate (2 ^ 32 - 1) loseToken).flatten ++
    [.start 1, .enter 1 0]

/-- The first thread has its token. -/
def firstToken : State :=
  { created := 1, registries := update (fun _ => none) 0 (some {}), nextToken := 1,
    threads := update (fun _ => none) 0 (some { token := 1, pc := .noting 0 }) }

/-- The next thread has the same token. -/
def secondToken : State :=
  firstToken.setThread 1 (some { token := 1, pc := .noting 0 })

/-- Two live threads have token 1. -/
theorem token_shared :
    ∃ s, (machine inOrder).run {} shareToken = some s ∧
      (s.threads 0).map Thread.token = some 1 ∧ (s.threads 1).map Thread.token = some 1 ∧
      ¬ SlotsSound s := by
  have hfirst : (machine inOrder).run {} [.construct, .start 0, .enter 0 0] =
      some firstToken := by
    simp [machine, step, threadStep, Action.thread?, State.setThread, State.setRegistry,
      materializationThreadToken, firstToken]
  have hwrap : (machine inOrder).run firstToken (List.replicate (2 ^ 32 - 1) loseToken).flatten =
      some { firstToken with nextToken := 0 } :=
    run_loseTokens (2 ^ 32 - 1) rfl rfl rfl
  have hnext : (machine inOrder).run { firstToken with nextToken := 0 } [.start 1, .enter 1 0] =
      some secondToken := by
    simp [machine, step, threadStep, Action.thread?, State.setThread,
      materializationThreadToken, firstToken, secondToken]
  refine ⟨secondToken, ?_, rfl, rfl, fun h => ?_⟩
  · rw [shareToken, List.append_assoc, Machine.run_append hfirst, Machine.run_append hwrap, hnext]
  · exact absurd (h.distinct 0 1 _ _ rfl rfl rfl (by decide)) (by decide)

end Ctorium.WaitSlots
