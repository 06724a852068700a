import Ctorium.Materialization.Invariant
import Ctorium.Lib.Chase

/-!
# The wait graph

A thread that waits for a key waits for the thread that owns it. In every
reachable state this relation has no cycle (`reachable_acyclic`): a thread that
starts to wait has checked that its edge closes none, a thread that claims a key
has no outgoing edge, and every other step only removes edges.

The check is exact (`materializationWaitCycleDetected_iff`): it follows the edges
for as many threads as there are entries in `materializing_`, and every thread
on the way owns an entry. A waiter that was notified keeps its edge until it
runs; the edge is there only while its key is still owned and not stored, so the
waiter does depend on the owner.

A waiter that is not notified waits for an owner, or a notification is on its
way (`reachable_attended`); with the acyclicity, some thread in the middle of a
resolve can always move (`exists_awake`).
-/

namespace Ctorium.Materialization

open Function Relation

/-- Thread `t` has an active wait edge on a key that is owned by thread `u`. -/
def State.WaitsFor (s : State) (t u : ThreadToken) : Prop :=
  ∃ k, s.WaitsOn t k ∧ (⟨k, u⟩ : MaterializingEntry) ∈ s.materializing

section Exactness

variable {D : Descriptors} {s : State} {t u : ThreadToken}

theorem ownerOf_of_mem (h : Inv D s) {k : MaterializationKey}
    (hm : (⟨k, u⟩ : MaterializingEntry) ∈ s.materializing) : s.ownerOf k = some u := by
  cases hown : s.ownerOf k with
  | none => exact absurd hm (ownerOf_eq_none.mp hown u)
  | some v => rw [h.shared.owner_unique (mem_of_ownerOf hown) hm]

/-- The check reads the edges of the wait graph: a waiting thread has a token and a slot. -/
theorem follows_awaitedOwner (h : Inv D s) : Follows s.awaitedOwner t u ↔ s.WaitsFor t u := by
  unfold Follows State.awaitedOwner
  constructor
  · intro hf
    split at hf
    · cases hf
    · split at hf
      · next hactive => exact ⟨_, ⟨hactive, rfl⟩, mem_of_ownerOf hf⟩
      · cases hf
  · rintro ⟨k, hwait, hm⟩
    obtain ⟨n, e, rest, hf⟩ := ((h.thread t).wait k).mp hwait
    obtain ⟨_, hknows⟩ :=
      (h.thread t).ok _ (by rw [hf]; exact List.mem_cons_self) k (.waiting n) rfl
    have htoken := (h.thread t).token (by rw [hf]; exact List.cons_ne_nil _ _)
    have hslot : s.hasMaterializationWaitSlot t = true := decide_eq_true hknows.2
    rw [if_neg (by simp [htoken, hslot]), if_pos hwait.1, hwait.2]
    exact ownerOf_of_mem h hm

theorem reflTransGen_awaitedOwner (h : Inv D s) :
    ReflTransGen (Follows s.awaitedOwner) t u ↔ ReflTransGen s.WaitsFor t u := by
  have : Follows s.awaitedOwner = s.WaitsFor := by
    ext t u
    exact follows_awaitedOwner h
  rw [this]

/-- The threads that own an entry. -/
def State.owners (s : State) : Finset ThreadToken := (s.materializing.map (·.threadToken)).toFinset

theorem mem_owners {m : MaterializingEntry} (hm : m ∈ s.materializing) :
    m.threadToken ∈ s.owners :=
  List.mem_toFinset.mpr (List.mem_map.mpr ⟨m, hm, rfl⟩)

theorem card_owners_le : s.owners.card ≤ s.materializing.length := by
  refine (List.toFinset_card_le _).trans ?_
  rw [List.length_map]

/-- Every thread that the check visits owns an entry. -/
theorem mem_owners_of_reflTransGen (hu : u ∈ s.owners) (h : ReflTransGen s.WaitsFor u t) :
    t ∈ s.owners := by
  induction h with
  | refl => exact hu
  | tail _ hbc _ =>
    obtain ⟨k, _, hm⟩ := hbc
    exact mem_owners hm

/-- The cycle check is exact: its bound never cuts off a path. -/
theorem materializationWaitCycleDetected_iff (h : Inv D s) (hacyc : Acyclic s.WaitsFor)
    (hu : u ∈ s.owners) :
    s.materializationWaitCycleDetected t u = true ↔ ReflTransGen s.WaitsFor u t := by
  unfold State.materializationWaitCycleDetected
  rw [← reflTransGen_awaitedOwner h]
  refine ⟨reflTransGen_of_chase, chase_of_reflTransGen ?_ s.owners ?_ card_owners_le⟩
  · exact hacyc.mono fun a b => (follows_awaitedOwner h).mp
  · exact fun x hx => mem_owners_of_reflTransGen hu ((reflTransGen_awaitedOwner h).mp hx)

/-- A thread with an empty stack owns no key. -/
theorem not_mem_of_stack_nil (h : Inv D s) (hs : (s.threads t).materializationStack = [])
    (k : MaterializationKey) : (⟨k, t⟩ : MaterializingEntry) ∉ s.materializing := by
  intro hm
  obtain ⟨f, hf, hown⟩ := ((h.thread t).owner k).mp hm
  have := hown.mem_stackOf hf
  rw [← (h.thread t).stack, hs] at this
  cases this

/-- The check is only skipped by a thread that no path can lead to. -/
theorem not_reflTransGen_of_stack_nil (h : Inv D s)
    (hs : (s.threads t).materializationStack = []) (hu : u ≠ t) :
    ¬ ReflTransGen s.WaitsFor u t := by
  intro hpath
  obtain rfl | ⟨v, _, k, _, hm⟩ := hpath.cases_tail
  · exact hu rfl
  · exact not_mem_of_stack_nil h hs k hm

end Exactness

/-! ## Acyclicity -/

section Acyclicity

variable {D : Descriptors} {s s' : State} {t : ThreadToken}

theorem effect_acyclic (h : Inv D s) (hacyc : Acyclic s.WaitsFor) (he : Effect D t s s') :
    Acyclic s'.WaitsFor := by
  cases he with
  | refuse | enter | enterGuard | move | grow | notifyAll | finish | leaveGuard => exact hacyc
  | unwait w hf hp hw =>
    refine hacyc.mono fun a b => ?_
    rintro ⟨k, ⟨hactive, hkey⟩, hm⟩
    refine ⟨k, ?_, hm⟩
    by_cases hat : a = t
    · subst hat
      simp [State.setFrames, State.setThread, hw] at hactive
    · simp only [State.setFrames, State.setThread, State.setWait_waitingByThread,
        update_of_ne hat] at hactive hkey
      exact ⟨hactive, hkey⟩
  | @claimed k e rest hf hfind hown hd =>
    -- The new owner does not wait: it is a sink.
    have hsink : ∀ k', ¬ s.WaitsOn t k' := (h.thread t).not_waitsOn hf rfl
    refine hacyc.sink (t := t) ?_ ?_
    · rintro a b ⟨k', hwait, hm⟩
      rcases List.mem_append.mp hm with hm | hm
      · exact .inl ⟨k', hwait, hm⟩
      · exact .inr (congrArg MaterializingEntry.threadToken (List.mem_singleton.mp hm))
    · rintro b ⟨k', hwait, _⟩
      exact hsink k' hwait
  | @block k u e rest hf hown hu hcycle =>
    refine hacyc.insert (t := t) (u := u) ?_ ?_
    · rintro a b ⟨k', ⟨hactive, hkey⟩, hm⟩
      by_cases hat : a = t
      · subst hat
        simp only [State.setFrames, State.setThread, State.setWait_waitingByThread,
          update_self] at hkey
        subst hkey
        exact .inr ⟨rfl, h.shared.owner_unique hm (mem_of_ownerOf hown)⟩
      · simp only [State.setFrames, State.setThread, State.setWait_waitingByThread,
          update_of_ne hat] at hactive hkey
        exact .inl ⟨k', ⟨hactive, hkey⟩, hm⟩
    · by_cases hs : (s.threads t).materializationStack = []
      · exact not_reflTransGen_of_stack_nil h hs hu
      · have hno := hcycle hs
        rw [← Bool.not_eq_true, materializationWaitCycleDetected_iff h hacyc
          (mem_owners (mem_of_ownerOf hown))] at hno
        exact hno
  | @release k p e rest result hf hp =>
    refine hacyc.mono fun a b => ?_
    rintro ⟨k', hwait, hm⟩
    rw [release_eq] at hwait hm
    exact ⟨k', hwait, ((mem_swapRemove_key h.shared.keys).mp hm).1⟩

theorem effects_acyclic (h : Inv D s) (hacyc : Acyclic s.WaitsFor)
    (he : ReflTransGen (Effect D t) s s') : Acyclic s'.WaitsFor := by
  induction he with
  | refl => exact hacyc
  | tail hes he ih => exact effect_acyclic (effects_inv h hes) ih he

/-- The wait graph of a reachable state has no cycle. -/
theorem reachable_acyclic (h : (machine D).Reachable s) : Acyclic s.WaitsFor := by
  have both : Inv D s ∧ Acyclic s.WaitsFor := by
    refine h.invariant (P := fun s => Inv D s ∧ Acyclic s.WaitsFor)
      (fun s hs => ⟨init_inv hs, ?_⟩) fun s a s' hP hs =>
      ⟨step_inv hP.1 hs, effects_acyclic hP.1 hP.2 (step_effects hs)⟩
    intro t hcycle
    obtain ⟨u, ⟨k, hwait, _⟩, _⟩ := TransGen.head'_iff.mp hcycle
    rw [State.WaitsOn, hs.2.1 t] at hwait
    cases hwait.1
  exact both.2

end Acyclicity

/-! ## Notifications are not lost -/

section Notifications

variable {D : Descriptors} {s s' : State} {t : ThreadToken}

/-- A thread has released its key and is about to notify the waiters. -/
def State.NotificationPending (s : State) : Prop :=
  ∃ t k r e rest, (s.threads t).frames = ⟨.materialize k (.notify r), e⟩ :: rest

/-- A thread that sleeps on a key waits for an owner, or for a notification on its way. -/
def State.Attended (s : State) : Prop :=
  ∀ t k e rest, (s.threads t).frames = ⟨.materialize k (.waiting false), e⟩ :: rest →
    (∃ u, (⟨k, u⟩ : MaterializingEntry) ∈ s.materializing) ∨ s.NotificationPending

theorem not_asleep_of_userCode {fs : List Frame} (h : userCode fs = true) : ¬ Asleep fs := by
  rintro ⟨k, e, rest, rfl⟩
  simp [userCode] at h

theorem not_asleep_materialize {k : MaterializationKey} {p : Phase} {e : List DescriptorId}
    {rest : List Frame} (hp : p.blocked = false) : ¬ Asleep (⟨.materialize k p, e⟩ :: rest) := by
  rintro ⟨k', e', rest', h⟩
  cases h
  cases hp

/-- A thread moves that keeps the entries, does not fall asleep, and owes no notification. -/
theorem State.Attended.of_thread (h : s.Attended) (t : ThreadToken)
    (hth : ∀ u, u ≠ t → s'.threads u = s.threads u)
    (hmat : ∀ m ∈ s.materializing, m ∈ s'.materializing)
    (hnew : ¬ Asleep (s'.threads t).frames)
    (hold : (∀ k r e rest, (s.threads t).frames ≠ ⟨.materialize k (.notify r), e⟩ :: rest) ∨
      ∀ u, ¬ Asleep (s.threads u).frames) : s'.Attended := by
  intro u k e rest hf
  have hut : u ≠ t := by
    rintro rfl
    exact hnew ⟨k, e, rest, hf⟩
  rw [hth u hut] at hf
  rcases hold with hold | hold
  · rcases h u k e rest hf with ⟨v, hv⟩ | ⟨v, k', r, e', rest', hv⟩
    · exact .inl ⟨v, hmat _ hv⟩
    · have hvt : v ≠ t := by
        rintro rfl
        exact hold k' r e' rest' hv
      exact .inr ⟨v, k', r, e', rest', by rw [hth v hvt, hv]⟩
  · exact absurd ⟨k, e, rest, hf⟩ (hold u)

theorem ne_notify_of_userCode {fs : List Frame} (h : userCode fs = true) (k : MaterializationKey)
    (r : Option Addr) (e : List DescriptorId) (rest : List Frame) :
    fs ≠ ⟨.materialize k (.notify r), e⟩ :: rest := by
  rintro rfl
  simp [userCode] at h

theorem ne_notify_of_notifying {k : MaterializationKey} {p : Phase} {e : List DescriptorId}
    {rest : List Frame} (hf : (s.threads t).frames = ⟨.materialize k p, e⟩ :: rest)
    (hp : p.notifying = true → ∀ u, ¬ Asleep (s.threads u).frames) :
    (∀ k' r e' rest', (s.threads t).frames ≠ ⟨.materialize k' (.notify r), e'⟩ :: rest') ∨
      ∀ u, ¬ Asleep (s.threads u).frames := by
  cases hn : p.notifying with
  | true => exact .inr (hp hn)
  | false =>
    refine .inl fun k' r e' rest' hf' => ?_
    rw [hf] at hf'
    cases hf'
    cases hn

theorem effect_attended (h : Inv D s) (ha : s.Attended) (he : Effect D t s s') :
    s'.Attended := by
  have nested {f : Frame} {rest : List Frame} (hf : (s.threads t).frames = f :: rest) :
      userCode rest = true := by
    have hn := (h.thread t).nested
    rw [hf] at hn
    exact hn.2.1
  cases he with
  | refuse | grow => exact ha
  | enter k ht hu hk =>
    exact ha.of_thread t (fun u hu => by simp [hu]) (fun _ hm => hm)
      (by simpa using not_asleep_materialize rfl) (.inl (ne_notify_of_userCode hu))
  | enterGuard d ht hu hd =>
    refine ha.of_thread t (fun u hu => by simp [hu]) (fun _ hm => hm) ?_
      (.inl (ne_notify_of_userCode hu))
    simpa using not_asleep_of_userCode rfl
  | move p' hf hown hp hp' hn hknows =>
    exact ha.of_thread t (fun u hu => by simp [hu]) (fun _ hm => hm)
      (by simpa using not_asleep_materialize hp') (ne_notify_of_notifying hf hn)
  | @unwait k p e rest w hf hp hw =>
    refine ha.of_thread t (fun u hu => by simp [hu]) (fun _ hm => hm)
      (by simpa using not_asleep_materialize rfl) (ne_notify_of_notifying hf fun hn => ?_)
    rcases hp with rfl | hp
    · cases hn
    · cases p <;> first | (cases hn; done) | cases hp
  | claimed hf hfind hown hd =>
    exact ha.of_thread t (fun u hu => by simp [hu]) (fun _ hm => List.mem_append_left _ hm)
      (by simpa using not_asleep_materialize rfl) (ne_notify_of_notifying hf nofun)
  | @block k v e rest hf hown hv hcycle =>
    intro u k' e' rest' hf'
    by_cases hut : u = t
    · subst hut
      simp only [State.setFrames_threads, update_self] at hf'
      cases hf'
      exact .inl ⟨v, mem_of_ownerOf hown⟩
    · simp only [State.setFrames_threads, State.setWait_threads, update_of_ne hut] at hf'
      rcases ha u k' e' rest' hf' with ⟨w, hw⟩ | ⟨w, k'', r, e'', rest'', hw⟩
      · exact .inl ⟨w, hw⟩
      · have hwt : w ≠ t := by
          rintro rfl
          rw [hf] at hw
          cases hw
        exact .inr ⟨w, k'', r, e'', rest'', by simpa [hwt] using hw⟩
  | @release k p e rest result hf hp =>
    -- Whoever sleeps on the key is attended by the notification that this thread owes.
    intro u k' e' rest' hf'
    exact .inr ⟨t, k, result, e, rest, by rw [release_eq]; simp⟩
  | notifyAll =>
    intro u k e rest hf
    exact absurd ⟨k, e, rest, hf⟩ (s.notifyAll_not_asleep u)
  | finish r hf hown hp hn hr =>
    refine ha.of_thread t (fun u hu => by simp [State.finish, hu]) (fun _ hm => hm) ?_
      (ne_notify_of_notifying hf hn)
    simpa [State.finish] using not_asleep_of_userCode (nested hf)
  | leaveGuard r hf =>
    refine ha.of_thread t (fun u hu => by simp [State.finish, hu]) (fun _ hm => hm) ?_
      (.inl fun k r e rest hf' => ?_)
    · simpa [State.finish] using not_asleep_of_userCode (nested hf)
    · rw [hf] at hf'
      cases hf'

theorem effects_attended (h : Inv D s) (ha : s.Attended) (he : ReflTransGen (Effect D t) s s') :
    s'.Attended := by
  induction he with
  | refl => exact ha
  | tail hes he ih => exact effect_attended (effects_inv h hes) ih he

theorem reachable_attended (h : (machine D).Reachable s) : s.Attended := by
  have both : Inv D s ∧ s.Attended := by
    refine h.invariant (P := fun s => Inv D s ∧ s.Attended)
      (fun s hs => ⟨init_inv hs, fun t k e rest hf => ?_⟩) fun s a s' hP hs =>
      ⟨step_inv hP.1 hs, effects_attended hP.1 hP.2 (step_effects hs)⟩
    rw [hs.2.2.1 t] at hf
    cases hf
  exact both.2

/-- If a thread sleeps, some thread in the middle of a resolve does not. -/
theorem exists_awake (h : (machine D).Reachable s) (ht : Asleep (s.threads t).frames) :
    ∃ u, (s.threads u).frames ≠ [] ∧ ¬ Asleep (s.threads u).frames := by
  classical
  have hinv := reachable_inv h
  -- Among the sleepers that are this thread or own a key, one waits for none of the others.
  let S := (insert t s.owners).filter fun u => Asleep (s.threads u).frames
  obtain ⟨a, haS, hno⟩ := (reachable_acyclic h).exists_no_edge S
    ⟨t, Finset.mem_filter.mpr ⟨Finset.mem_insert_self _ _, ht⟩⟩
  obtain ⟨k, e, rest, hf⟩ := (Finset.mem_filter.mp haS).2
  rcases reachable_attended h a k e rest hf with ⟨u, hu⟩ | ⟨u, k', r, e', rest', hu⟩
  · obtain ⟨f, hfu, _⟩ := ((hinv.thread u).owner k).mp hu
    refine ⟨u, List.ne_nil_of_mem hfu, fun hasleep => hno u ?_ ?_⟩
    · exact Finset.mem_filter.mpr ⟨Finset.mem_insert_of_mem (mem_owners hu), hasleep⟩
    · exact ⟨k, ((hinv.thread a).wait k).mpr ⟨false, e, rest, hf⟩, hu⟩
  · exact ⟨u, by rw [hu]; exact List.cons_ne_nil _ _, by
      rw [hu]; exact not_asleep_materialize rfl⟩

end Notifications

/-! ## The cycle check of a claim -/

section Claim

variable {D : Descriptors} {s : State} {t u : ThreadToken} {k : MaterializationKey}

/-- The thread is about to run an iteration of the claim loop for the key by this action. -/
inductive EntersClaimLoop (s : State) (t : ThreadToken) (k : MaterializationKey) : Act → Prop
  /-- It takes the lock for the first time, and the key is not on its own stack. -/
  | claim {e : List DescriptorId} {rest : List Frame}
      (hf : (s.threads t).frames = ⟨.materialize k .claim, e⟩ :: rest)
      (hd : k.descId ∉ (s.threads t).materializationStack) : EntersClaimLoop s t k .claim
  /-- It returns from a wait. -/
  | wake {n : Bool} {e : List DescriptorId} {rest : List Frame}
      (hf : (s.threads t).frames = ⟨.materialize k (.waiting n), e⟩ :: rest) :
      EntersClaimLoop s t k .wake

/-- The resolve has thrown the error for a dependency cycle across threads. -/
def RaisedCrossThreadCycle (s s' : State) (t : ThreadToken) (k : MaterializationKey) : Prop :=
  ∃ before after, s'.outcomes = s.outcomes ++
    [⟨t, k, .error (.resolutionError (crossThreadCycleMessage k)), before, after⟩]

/-- An iteration that finds another owner raises the error if the check reports a cycle. -/
theorem claimIteration_raises {e : List DescriptorId} {rest : List Frame}
    (hfind : s.findInstance D k = none) (hown : s.ownerOf k = some u) (hu : u ≠ t)
    (hs : (s.threads t).materializationStack ≠ [])
    (hc : s.materializationWaitCycleDetected t u = true) :
    RaisedCrossThreadCycle s (claimIteration D s t k e rest) t k := by
  have hdec : claimDecision D s t k = .crossThreadCycle := by
    simp [claimDecision, hfind, hown, hu, hs, hc]
  simp only [claimIteration, hdec]
  exact ⟨_, _, rfl⟩

/-- An iteration that finds another owner blocks if the check reports none. -/
theorem claimIteration_blocks {e : List DescriptorId} {rest : List Frame}
    (hfind : s.findInstance D k = none) (hown : s.ownerOf k = some u) (hu : u ≠ t)
    (hc : s.materializationWaitCycleDetected t u = false) :
    (claimIteration D s t k e rest).outcomes = s.outcomes ∧
      ((claimIteration D s t k e rest).threads t).frames =
        ⟨.materialize k (.waiting false), e⟩ :: rest := by
  have hdec : claimDecision D s t k = .wait := by
    simp [claimDecision, hfind, hown, hu, hc]
  simp only [claimIteration, hdec]
  refine ⟨rfl, ?_⟩
  simp

/-- Paths to a thread do not use its own edge. -/
theorem reflTransGen_unwait {w : MaterializationWait} (hw : w.active = false) (fs : List Frame) :
    ReflTransGen ((s.setWait t w).setFrames t fs).WaitsFor u t ↔
      ReflTransGen s.WaitsFor u t := by
  have edge : ∀ a b, a ≠ t →
      (((s.setWait t w).setFrames t fs).WaitsFor a b ↔ s.WaitsFor a b) := by
    intro a b hat
    simp only [State.WaitsFor, State.WaitsOn, State.setFrames, State.setThread,
      State.setWait_waitingByThread, update_of_ne hat]
    rfl
  constructor
  · intro h
    refine ReflTransGen.mono (fun a b hab => ?_) _ _ h
    by_cases hat : a = t
    · subst hat
      obtain ⟨k, hwait, _⟩ := hab
      simp [State.WaitsOn, State.setFrames, State.setThread, hw] at hwait
    · exact (edge a b hat).mp hab
  · intro h
    induction h using ReflTransGen.head_induction_on with
    | refl => exact .refl
    | @head a b hab _ ih =>
      by_cases hat : a = t
      · rw [hat]
      · exact ih.head ((edge a b hat).mpr hab)

/-- The error is raised exactly for a path in the wait graph; otherwise the thread blocks. -/
theorem raised_iff_of_unwait {e : List DescriptorId} {rest : List Frame} {w : MaterializationWait}
    {p : Phase} (h : Inv D s) (hacyc : Acyclic s.WaitsFor)
    (hf : (s.threads t).frames = ⟨.materialize k p, e⟩ :: rest)
    (hp : p = .claim ∨ p.blocked = true) (hw : w.active = false)
    (hfind : s.findInstance D k = none) (hm : (⟨k, u⟩ : MaterializingEntry) ∈ s.materializing)
    (hu : u ≠ t) :
    let s' := claimIteration D
      ((s.setWait t w).setFrames t (⟨.materialize k .claim, e⟩ :: rest)) t k e rest
    (RaisedCrossThreadCycle s s' t k ↔ ReflTransGen s.WaitsFor u t) ∧
      (¬ ReflTransGen s.WaitsFor u t → BlockedOn (s'.threads t).frames k) := by
  intro s'
  set s₁ := (s.setWait t w).setFrames t (⟨.materialize k .claim, e⟩ :: rest)
  have heff : Effect D t s s₁ := .unwait w hf hp hw
  have hinv : Inv D s₁ := effect_inv h heff
  -- The edge that the claim gives up is not on a path to `t`.
  have hpath : ReflTransGen s₁.WaitsFor u t ↔ ReflTransGen s.WaitsFor u t :=
    reflTransGen_unwait hw _
  have hcheck := materializationWaitCycleDetected_iff hinv (effect_acyclic h hacyc heff)
    (mem_owners (s := s₁) hm) (t := t)
  rw [hpath] at hcheck
  have hown := ownerOf_of_mem hinv hm
  by_cases hr : ReflTransGen s.WaitsFor u t
  -- There is a path, so the check finds it and raises.
  · have hs : (s₁.threads t).materializationStack ≠ [] := fun hs =>
      not_reflTransGen_of_stack_nil hinv hs hu (hpath.mpr hr)
    have hraised : RaisedCrossThreadCycle s s' t k :=
      claimIteration_raises hfind hown hu hs (hcheck.mpr hr)
    exact ⟨⟨fun _ => hr, fun _ => hraised⟩, fun h => absurd hr h⟩
  -- There is none: the check passes, and the thread waits for the owner.
  · have hno : s₁.materializationWaitCycleDetected t u = false :=
      Bool.eq_false_iff.mpr fun hc => hr (hcheck.mp hc)
    obtain ⟨hout, hframes⟩ : s'.outcomes = s₁.outcomes ∧
        (s'.threads t).frames = ⟨.materialize k (.waiting false), e⟩ :: rest :=
      claimIteration_blocks hfind hown hu hno
    refine ⟨⟨fun ⟨before, after, hraised⟩ => ?_, fun h => absurd h hr⟩, fun _ => ?_⟩
    · have : s.outcomes = s.outcomes ++ [_] := hout.symm.trans hraised
      simp at this
    · exact ⟨false, e, rest, hframes⟩

end Claim

/-- What a state of the machine owes to deadlock freedom and to the cycle check. -/
structure WaitGraphSound (D : Descriptors) (s : State) : Prop where
  /-- The wait graph has no cycle. -/
  acyclic : Acyclic s.WaitsFor
  /-- No set of threads waits within itself. -/
  no_blocked_set : ∀ S : Finset ThreadToken, S.Nonempty → ∃ t ∈ S, ∀ u ∈ S, ¬ s.WaitsFor t u
  /-- While a thread sleeps, some thread in the middle of a resolve does not. -/
  awake : ∀ t, Asleep (s.threads t).frames →
    ∃ u, (s.threads u).frames ≠ [] ∧ ¬ Asleep (s.threads u).frames
  /-- An edge, of a notified waiter too, is a dependency: the waiter is still blocked on
      the key, and the key is owned and not stored. -/
  genuine : ∀ t u, s.WaitsFor t u → ∃ k, BlockedOn (s.threads t).frames k ∧
    (⟨k, u⟩ : MaterializingEntry) ∈ s.materializing ∧ s.findInstance D k = none
  /-- A claim that finds the key owned by another thread raises the cross-thread error if
      and only if the wait graph leads from the owner back to the caller, and blocks otherwise. -/
  exact_check : ∀ t u k act, EntersClaimLoop s t k act → s.findInstance D k = none →
    (⟨k, u⟩ : MaterializingEntry) ∈ s.materializing → u ≠ t →
    ∃ s', (machine D).step s ⟨t, act⟩ = some s' ∧
      (RaisedCrossThreadCycle s s' t k ↔ ReflTransGen s.WaitsFor u t) ∧
      (¬ ReflTransGen s.WaitsFor u t → BlockedOn (s'.threads t).frames k)

/-- **Deadlock freedom and exactness of the cycle check**, in every state that any
    interleaving of the threads reaches. -/
theorem wait_graph_sound {D : Descriptors} {s : State} (h : (machine D).Reachable s) :
    WaitGraphSound D s := by
  have hinv := reachable_inv h
  have hacyc := reachable_acyclic h
  refine ⟨hacyc, hacyc.exists_no_edge, fun _ => exists_awake h, ?_, ?_⟩
  · rintro t u ⟨k, hwait, hm⟩
    exact ⟨k, ((hinv.thread t).wait k).mp hwait, hm, hinv.shared.unstored _ hm⟩
  · rintro t u k act (⟨hf, hd⟩ | hf) hfind hm hu
    · refine ⟨_, by simp only [machine, step, hf]; rfl, ?_⟩
      have := raised_iff_of_unwait (w := {}) hinv hacyc hf (.inl rfl) rfl hfind hm hu
      rw [(s.setWait t {}).setFrames_eq_self t hf] at this
      rw [claimMaterializationOrWait]
      simpa only [State.setWait_threads, hd, if_false] using this
    · refine ⟨_, by simp only [machine, step, hf]; rfl, ?_⟩
      exact raised_iff_of_unwait hinv hacyc hf (.inr rfl) rfl hfind hm hu

/-- Threads 1 and 2 materialize singletons 1 and 2; the constructor of 1 waits for 2, and the
    constructor of 2 asks for 1. -/
def crossingActions : List Action :=
  claimActions 1 ⟨1, none⟩ ++ claimActions 2 ⟨2, none⟩ ++ claimActions 1 ⟨2, none⟩ ++
    [⟨2, .resolve 1 none⟩, ⟨2, .find⟩, ⟨2, .ensureSlot⟩]

theorem wait_graph_sound_crossing : ∃ s,
    (machine allSingletons).run emptyState crossingActions = some s ∧
    EntersClaimLoop s 2 ⟨1, none⟩ .claim ∧ s.WaitsFor 1 2 ∧ WaitGraphSound allSingletons s := by
  have hrun : ∃ s, (machine allSingletons).run emptyState crossingActions = some s ∧
      EntersClaimLoop s 2 ⟨1, none⟩ .claim ∧ s.WaitsFor 1 2 := by
    refine ⟨_, rfl, .claim rfl (by decide), ⟨2, none⟩, ⟨rfl, rfl⟩, ?_⟩
    exact List.mem_cons_of_mem _ List.mem_cons_self
  obtain ⟨s, hrun, henters, hwaits⟩ := hrun
  exact ⟨s, hrun, henters, hwaits,
    wait_graph_sound ((Machine.Reachable.init emptyState_init).run hrun)⟩

end Ctorium.Materialization
