import Ctorium.Lib.StableInsert
import Ctorium.Listeners

/-!
# The listeners of a run

Tokens number the registrations of a run: the entry or deferred listener with
token `k` comes from the `k`-th call of `on`. Along every run the entries of each
phase are sorted by priority and have distinct tokens, the published view is the
one of the entries, and deferred listeners only wait for a start to come or for
one in progress.

* `invoked_eq`: what a dispatch invokes, read off the entries of its phase;
* `phases_removeByToken`: a removal drops the entry of the token, and no other;
* `Inv.step`, `Inv.run`: the invariant along a run.
-/

namespace Ctorium.Listeners

open Function (update)
open ListenerStore (LifecyclePhase)

/-- A call of `on`. -/
structure Registration where
  context : ContextId
  type : Option CppType
  phase : LifecyclePhase
  callback : ℕ
  priority : ℤ
  deriving DecidableEq, Repr

/-- The calls of `on` in a run, in their order. -/
def registrations (as : List Action) : List Registration :=
  as.filterMap fun
    | .on c type phase callback priority => some ⟨c, type, phase, callback, priority⟩
    | _ => none

theorem registrations_cons (a : Action) (as : List Action) :
    registrations (a :: as) = registrations [a] ++ registrations as :=
  List.filterMap_append (l := [a])

/-- The call that an entry of a view for the phase comes from. -/
def ViewEntry.registration (phase : LifecyclePhase) (e : ViewEntry) : Registration :=
  ⟨e.listenerScope, e.callback.type, phase, e.callback.callback, e.priority⟩

/-- The call that an entry comes from. -/
def Entry.registration (e : Entry) : Registration := e.toView.registration e.phase

/-- The entry that a deferred listener becomes. -/
def DeferredListener.toEntry (d : DeferredListener) : Entry :=
  ⟨none, d.listenerScope, d.callback, d.priority, d.token, d.phase⟩

/-- The user callback of an entry is invoked for an event of its phase. -/
def Entry.hears (x : Entry) (e : Event) : Bool :=
  (x.listenerScope = none || x.listenerScope = e.emitterScope) && x.callback.forwards e

/-! ## The store -/

namespace Store

/-- The entries come from the registrations; each phase is sorted and without duplicates. -/
structure Valid (regs : List Registration) (st : Store) : Prop where
  phase : ∀ p, ∀ e ∈ st.phases p, e.phase = p
  untyped : ∀ p, ∀ e ∈ st.phases p, e.typeId = none
  registered : ∀ p, ∀ e ∈ st.phases p, regs[e.token]? = some e.registration
  sorted : ∀ p, (st.phases p).Pairwise fun a b => b.priority ≤ a.priority
  nodup : ∀ p, (st.phases p).Pairwise fun a b => a.token ≠ b.token
  sizes : ∀ p, st.phaseSizes p = (st.phases p).length

/-- The published view is the one of the entries, or there are no entries yet. -/
def Published (st : Store) : Prop :=
  (∀ p, st.phases p = []) ∨ st.view = some fun p => phaseView (st.phases p)

variable {regs : List Registration} {st : Store}

@[simp] theorem phases_reserveToken : st.reserveToken.phases = st.phases := rfl

@[simp] theorem phases_rebuildView : st.rebuildView.phases = st.phases := rfl

@[simp] theorem phases_finalizeListeners : st.finalizeListeners.phases = st.phases := rfl

@[simp] theorem nextToken_finalizeListeners :
    st.finalizeListeners.nextToken = st.nextToken := rfl

theorem rebuildView_published : st.rebuildView.Published := .inr rfl

theorem valid_rebuildView (h : st.Valid regs) : st.rebuildView.Valid regs :=
  ⟨h.phase, h.untyped, h.registered, h.sorted, h.nodup, h.sizes⟩

theorem valid_reserveToken (h : st.Valid regs) : st.reserveToken.Valid regs :=
  ⟨h.phase, h.untyped, h.registered, h.sorted, h.nodup, h.sizes⟩

/-- Later registrations do not matter. -/
theorem Valid.append (h : st.Valid regs) (regs' : List Registration) :
    st.Valid (regs ++ regs') where
  phase := h.phase
  untyped := h.untyped
  registered p e he := by
    have := h.registered p e he
    rw [List.getElem?_append_left (List.getElem?_eq_some_iff.1 this).1]
    exact this
  sorted := h.sorted
  nodup := h.nodup
  sizes := h.sizes

/-- What a dispatch invokes: the entries of its phase that hear the event, in their order. -/
theorem invoked_eq (h : st.Valid regs) (hp : st.Published) (e : Event) :
    st.invoked e = ((st.phases e.phase).filter (·.hears e)).map Entry.toView := by
  by_cases hempty : st.phases e.phase = []
  · have hsize : st.phaseSizes e.phase = 0 := by rw [h.sizes, hempty, List.length_nil]
    rw [invoked, dispatch, if_pos hsize, hempty]
    rfl
  · have hsize : st.phaseSizes e.phase ≠ 0 := by
      rw [h.sizes]
      exact fun h0 => hempty (List.length_eq_zero_iff.1 h0)
    rcases hp with hp | hview
    · exact absurd (hp _) hempty
    -- No entry has a type filter in the store, so the merge has nothing to merge with.
    have hglobal : (phaseView (st.phases e.phase)).global =
        (st.phases e.phase).map Entry.toView := by
      rw [phaseView, List.filter_eq_self.2]
      intro x hx
      simp [h.untyped _ x hx]
    have htyped : (phaseView (st.phases e.phase)).typed e.beanTypeId = [] := by
      simp only [phaseView, List.map_eq_nil_iff, List.filter_eq_nil_iff]
      intro x hx
      simp [h.untyped _ x hx]
    rw [invoked, dispatch, if_neg hsize, hview]
    simp only [dispatchFromView]
    rw [hglobal, htyped, List.merge_right, List.filter_filter, List.filter_map]
    congr 1
    exact List.filter_congr fun x _ => Bool.and_comm _ _

/-! ### Insertion -/

/-- The entries of a phase after an insertion. -/
theorem phases_insertEntry (e : Entry) (p : LifecyclePhase) :
    (st.insertEntry e).phases p = if e.phase = p then
      (st.phases p).orderedInsert (fun a b => b.priority < a.priority) e else st.phases p := by
  simp only [insertEntry, Function.update_apply]
  by_cases hp : e.phase = p
  · subst hp
    simp
  · rw [if_neg (Ne.symm hp), if_neg hp]

theorem mem_phases_insertEntry {e x : Entry} {p : LifecyclePhase} :
    x ∈ (st.insertEntry e).phases p ↔ e.phase = p ∧ x = e ∨ x ∈ st.phases p := by
  rw [phases_insertEntry]
  split
  · rename_i hp
    rw [List.mem_orderedInsert]
    simp [hp]
  · rename_i hp
    simp [hp]

/-- Inserting an entry of a registration that has none yet. -/
theorem valid_insertEntry (h : st.Valid regs) {e : Entry} (htype : e.typeId = none)
    (hreg : regs[e.token]? = some e.registration)
    (hnew : ∀ x ∈ st.phases e.phase, x.token ≠ e.token) : (st.insertEntry e).Valid regs where
  phase p x hx := by
    rcases mem_phases_insertEntry.1 hx with ⟨hp, rfl⟩ | hx
    · exact hp
    · exact h.phase p x hx
  untyped p x hx := by
    rcases mem_phases_insertEntry.1 hx with ⟨_, rfl⟩ | hx
    · exact htype
    · exact h.untyped p x hx
  registered p x hx := by
    rcases mem_phases_insertEntry.1 hx with ⟨_, rfl⟩ | hx
    · exact hreg
    · exact h.registered p x hx
  sorted p := by
    rw [phases_insertEntry]
    split
    · exact List.sorted_stableInsert (h.sorted p) e
    · exact h.sorted p
  nodup p := by
    rw [phases_insertEntry]
    split
    · rename_i hp
      subst hp
      -- A token is used once, so equal priorities keep the entries apart.
      exact (List.pairwise_stableInsert (h.sorted _) e).2
        ⟨h.nodup _, fun b hb _ => hnew b hb, fun b hb _ => (hnew b hb).symm⟩
    · exact h.nodup p
  sizes p := by
    rw [phases_insertEntry]
    simp only [insertEntry, Function.update_apply]
    by_cases hp : e.phase = p
    · subst hp
      rw [if_pos rfl, if_pos rfl, h.sizes, List.orderedInsert_length]
    · rw [if_neg (Ne.symm hp), if_neg hp, h.sizes]

/-! ### Removal -/

/-- The entries of the store have distinct tokens. -/
structure Distinct (st : Store) : Prop where
  nodup : ∀ p, (st.phases p).Pairwise fun a b => a.token ≠ b.token
  /-- A token found in a phase is not found in another one. -/
  phase_unique : ∀ p, ∀ x ∈ st.phases p, ∀ q, ∀ y ∈ st.phases q, x.token = y.token → p = q

theorem Valid.distinct (h : st.Valid regs) : st.Distinct where
  nodup := h.nodup
  phase_unique p x hx q y hy hxy := by
    have hreg : x.registration = y.registration := by
      have hx' := h.registered p x hx
      rw [hxy, h.registered q y hy] at hx'
      exact (Option.some.inj hx').symm
    have hphase : x.phase = y.phase := congrArg Registration.phase hreg
    rw [← h.phase p x hx, ← h.phase q y hy, hphase]

/-- Where all tokens are distinct, erasing the first entry with a token leaves the
    entries with other tokens. -/
theorem eraseP_token_eq_filter {l : List Entry} (k : ℕ)
    (hl : l.Pairwise fun a b => a.token ≠ b.token) :
    (l.eraseP fun x => x.token = k) = l.filter fun x => x.token ≠ k := by
  induction l with
  | nil => rfl
  | cons x l ih =>
    obtain ⟨hx, hl⟩ := List.pairwise_cons.1 hl
    by_cases hk : x.token = k
    · rw [List.eraseP_cons_of_pos (by simpa using hk), List.filter_cons_of_neg (by simpa using hk),
        List.filter_eq_self.2]
      intro y hy
      have := hx y hy
      rw [hk] at this
      simpa using this.symm
    · rw [List.eraseP_cons_of_neg (by simpa using hk), List.filter_cons_of_pos (by simpa using hk),
        ih hl]

/-- A removal drops the entry of the token, and no other. -/
theorem phases_removeByToken (h : st.Distinct) (k : ℕ) (p : LifecyclePhase) :
    (st.removeByToken k).phases p = (st.phases p).filter fun x => x.token ≠ k := by
  simp only [removeByToken]
  split
  · rename_i hnone
    have hp : p ∈ phaseOrder := by cases p <;> decide
    have := List.find?_eq_none.1 hnone p hp
    rw [List.filter_eq_self.2]
    -- No entry has the next token yet.
    simpa using this
  · rename_i q hq
    obtain ⟨y, hy, hyk⟩ : ∃ y ∈ st.phases q, y.token = k := by
      simpa using List.find?_some hq
    simp only [phases_rebuildView, Function.update_apply]
    by_cases hpq : p = q
    · subst hpq
      rw [if_pos rfl, eraseP_token_eq_filter k (h.nodup p)]
    · rw [if_neg hpq, List.filter_eq_self.2]
      intro x hx
      have : x.token ≠ k := fun hxk =>
        hpq (h.phase_unique p x hx q y hy (hxk.trans hyk.symm))
      simpa using this

theorem nextToken_removeByToken (k : ℕ) : (st.removeByToken k).nextToken = st.nextToken := by
  unfold removeByToken
  split <;> rfl

theorem sizes_removeByToken (h : ∀ p, st.phaseSizes p = (st.phases p).length) (k : ℕ)
    (p : LifecyclePhase) :
    (st.removeByToken k).phaseSizes p = ((st.removeByToken k).phases p).length := by
  simp only [removeByToken]
  split
  · exact h p
  · rename_i q hq
    obtain ⟨y, hy, hyk⟩ : ∃ y ∈ st.phases q, y.token = k := by
      simpa using List.find?_some hq
    simp only [rebuildView, Function.update_apply]
    split
    · rw [List.length_eraseP_of_mem hy (by simpa using hyk), h]
    · exact h p

theorem valid_removeByToken (h : st.Valid regs) (k : ℕ) : (st.removeByToken k).Valid regs where
  phase p x hx := by
    rw [phases_removeByToken h.distinct] at hx
    exact h.phase p x (List.mem_of_mem_filter hx)
  untyped p x hx := by
    rw [phases_removeByToken h.distinct] at hx
    exact h.untyped p x (List.mem_of_mem_filter hx)
  registered p x hx := by
    rw [phases_removeByToken h.distinct] at hx
    exact h.registered p x (List.mem_of_mem_filter hx)
  sorted p := by
    rw [phases_removeByToken h.distinct]
    exact (h.sorted p).filter _
  nodup p := by
    rw [phases_removeByToken h.distinct]
    exact (h.nodup p).filter _
  sizes p := sizes_removeByToken h.sizes k p

theorem removeByToken_published (hp : st.Published) (k : ℕ) :
    (st.removeByToken k).Published := by
  unfold removeByToken
  -- Tokens are handed out in ascending order, so the new listener comes last in its list.
  split
  · exact hp
  · exact rebuildView_published

/-- The removal of a token that is not in the store changes nothing. -/
theorem removeByToken_of_absent {k : ℕ} (hk : ∀ p, ∀ x ∈ st.phases p, x.token ≠ k) :
    st.removeByToken k = st := by
  unfold removeByToken
  -- Along a start the contexts that still wait are those that have deferred listeners.
  split
  · rfl
  · rename_i q hq
    obtain ⟨y, hy, hyk⟩ : ∃ y ∈ st.phases q, y.token = k := by
      simpa using List.find?_some hq
    exact absurd hyk (hk q y hy)

/-! ### Insertion of the deferred listeners -/

/-- The insertion of deferred listeners, one by one. -/
def insertDeferred (st : Store) (ds : List DeferredListener) : Store :=
  ds.foldl (fun st d => st.insertEntry d.toEntry) st

theorem insertDeferred_cons (d : DeferredListener) (ds : List DeferredListener) :
    st.insertDeferred (d :: ds) = (st.insertEntry d.toEntry).insertDeferred ds := rfl

theorem nextToken_insertDeferred (ds : List DeferredListener) :
    (st.insertDeferred ds).nextToken = st.nextToken := by
  induction ds generalizing st with
  | nil => rfl
  | cons d ds ih =>
    -- A context that comes to exist has nothing deferred.
    rw [insertDeferred_cons, ih]
    rfl

/-- The entries of a phase after the insertions. -/
theorem phases_insertDeferred (ds : List DeferredListener) (p : LifecyclePhase) :
    (st.insertDeferred ds).phases p =
      ((ds.filter (·.phase = p)).map DeferredListener.toEntry).foldl
        (fun l a => l.orderedInsert (fun a b => b.priority < a.priority) a) (st.phases p) := by
  induction ds generalizing st with
  | nil => rfl
  -- Every context that exists is in the queue of the start.
  | cons d ds ih =>
    rw [insertDeferred_cons, ih, phases_insertEntry]
    have hphase : d.toEntry.phase = d.phase := rfl
    by_cases hp : d.phase = p
    · rw [hphase, if_pos hp, List.filter_cons_of_pos (by simpa using hp), List.map_cons,
        List.foldl_cons]
    · rw [hphase, if_neg hp, List.filter_cons_of_neg (by simpa using hp)]

theorem mem_phases_insertDeferred {ds : List DeferredListener} {x : Entry} {p : LifecyclePhase} :
    x ∈ (st.insertDeferred ds).phases p ↔
      (∃ d ∈ ds, d.phase = p ∧ x = d.toEntry) ∨ x ∈ st.phases p := by
  induction ds generalizing st with
  | nil => simp [insertDeferred]
  | cons d ds ih =>
    -- The context whose turn it was has been emptied; the others wait on.
    rw [insertDeferred_cons, ih, mem_phases_insertEntry, List.exists_mem_cons_iff, or_left_comm,
      or_assoc]
    rfl

/-- Inserting the deferred listeners of registrations that have no entry yet. -/
theorem valid_insertDeferred (h : st.Valid regs) {ds : List DeferredListener}
    (hreg : ∀ d ∈ ds, regs[d.token]? = some d.toEntry.registration)
    (hnodup : ds.Pairwise fun a b => a.token < b.token)
    (hnew : ∀ d ∈ ds, ∀ p, ∀ x ∈ st.phases p, x.token ≠ d.token) :
    (st.insertDeferred ds).Valid regs := by
  induction ds generalizing st with
  | nil => exact h
  | cons d ds ih =>
    obtain ⟨hd, hnodup⟩ := List.pairwise_cons.1 hnodup
    -- Nobody is left in the queue.
    have hins : (st.insertEntry d.toEntry).Valid regs :=
      valid_insertEntry h rfl (hreg d List.mem_cons_self) fun x hx =>
        hnew d List.mem_cons_self _ x hx
    rw [insertDeferred_cons]
    refine ih hins (fun d' hd' => hreg d' (List.mem_cons_of_mem _ hd')) hnodup ?_
    intro d' hd' p x hx
    rcases mem_phases_insertEntry.1 hx with ⟨_, rfl⟩ | hx
    · exact (hd d' hd').ne
    · exact hnew d' (List.mem_cons_of_mem _ hd') p x hx

end Store

/-! ## The contexts -/

/-- The invariant of the states that a run with the given registrations leads to. -/
structure Inv (regs : List Registration) (s : State) : Prop where
  valid : s.store.Valid regs
  published : s.store.Published
  nextToken : s.store.nextToken = regs.length
  scope : ∀ c, ∀ d ∈ s.deferred c, d.listenerScope = c
  registered : ∀ c, ∀ d ∈ s.deferred c, regs[d.token]? = some d.toEntry.registration
  ascending : ∀ c, (s.deferred c).Pairwise fun a b => a.token < b.token
  apart : ∀ c, ∀ d ∈ s.deferred c, ∀ p, ∀ x ∈ s.store.phases p, x.token ≠ d.token
  contexts : ∀ c, s.deferred c ≠ [] → s.HasContext c
  /-- On a started registry, deferred listeners are those that a start has yet to insert. -/
  waiting : s.started = true → ∀ c, s.deferred c ≠ [] → ∃ q, s.starting = some q ∧ c ∈ q
  begun : s.starting ≠ none → s.started = true
  handles : ∀ h ∈ s.handles, h.token < regs.length

namespace Inv

variable {regs : List Registration} {s s' : State}

theorem initial : Inv [] {} where
  valid := ⟨fun _ _ h => absurd h List.not_mem_nil, fun _ _ h => absurd h List.not_mem_nil,
    fun _ _ h => absurd h List.not_mem_nil, fun _ => .nil, fun _ => .nil, fun _ => rfl⟩
  published := .inl fun _ => rfl
  nextToken := rfl
  scope _ _ h := absurd h List.not_mem_nil
  registered _ _ h := absurd h List.not_mem_nil
  ascending _ := .nil
  apart _ _ h := absurd h List.not_mem_nil
  contexts _ h := absurd rfl h
  waiting h := absurd h (by decide)
  begun h := absurd rfl h
  handles _ h := absurd h List.not_mem_nil

/-- The tokens given out so far are lower than the next one. -/
theorem token_lt (h : Inv regs s) {p : LifecyclePhase} {x : Entry}
    (hx : x ∈ s.store.phases p) : x.token < regs.length :=
  (List.getElem?_eq_some_iff.1 (h.valid.registered p x hx)).1

theorem deferred_token_lt (h : Inv regs s) {c : ContextId} {d : DeferredListener}
    (hd : d ∈ s.deferred c) : d.token < regs.length :=
  (List.getElem?_eq_some_iff.1 (h.registered c d hd)).1

/-- A registration that is still valid after one more. -/
theorem getElem?_concat {r r' : Registration} {k : ℕ} (hk : regs[k]? = some r) :
    (regs ++ [r'])[k]? = some r := by
  rw [List.getElem?_append_left (List.getElem?_eq_some_iff.1 hk).1, hk]

theorem handles_concat (h : Inv regs s) {r : Registration} :
    ∀ x ∈ s.handles ++ [⟨true, s.store.nextToken⟩], x.token < (regs ++ [r]).length := by
  intro x hx
  rw [List.length_append, List.length_singleton]
  rcases List.mem_append.1 hx with hx | hx
  · exact Nat.lt_succ_of_lt (h.handles x hx)
  · rw [List.mem_singleton.1 hx, h.nextToken]
    exact Nat.lt_succ_self _

/-- A listener that goes to the store at once. -/
theorem onDirect (h : Inv regs s) (c : ContextId) (type : Option CppType)
    (phase : LifecyclePhase) (callback : ℕ) (priority : ℤ) :
    Inv (regs ++ [⟨c, type, phase, callback, priority⟩])
      (s.onDirect c type phase callback priority) where
  valid := by
    refine Store.valid_rebuildView (Store.valid_insertEntry
      (Store.valid_reserveToken (h.valid.append _)) rfl ?_ fun x hx => ?_)
    · rw [h.nextToken]
      exact List.getElem?_concat_length
    · rw [h.nextToken]
      exact (h.token_lt hx).ne
  published := Store.rebuildView_published
  nextToken := by
    rw [List.length_append, List.length_singleton, ← h.nextToken]
    rfl
  scope := h.scope
  registered c d hd := getElem?_concat (h.registered c d hd)
  ascending := h.ascending
  apart c d hd p x hx := by
    rcases Store.mem_phases_insertEntry.1 hx with ⟨_, rfl⟩ | hx
    · rw [h.nextToken]
      exact (h.deferred_token_lt hd).ne'
    · exact h.apart c d hd p x hx
  contexts := h.contexts
  waiting := h.waiting
  begun := h.begun
  handles := h.handles_concat

theorem mem_onDeferred {c c' : ContextId} {type : CppType} {phase : LifecyclePhase}
    {callback : ℕ} {priority : ℤ} {d : DeferredListener} :
    d ∈ (s.onDeferred c type phase callback priority).deferred c' ↔ d ∈ s.deferred c' ∨
      c' = c ∧ d = ⟨phase, c, ⟨some type, callback⟩, priority, s.store.nextToken⟩ := by
  simp only [State.onDeferred, Function.update_apply]
  split
  · rename_i hc
    subst hc
    simp
  · rename_i hc
    simp [hc]

/-- A typed listener on a registry that is not started. -/
theorem onDeferred (h : Inv regs s) {c : ContextId} (hc : s.HasContext c) (type : CppType)
    (phase : LifecyclePhase) (callback : ℕ) (priority : ℤ) (hstarted : s.started = false) :
    Inv (regs ++ [⟨c, some type, phase, callback, priority⟩])
      (s.onDeferred c type phase callback priority) where
  valid := Store.valid_reserveToken (h.valid.append _)
  published := h.published
  nextToken := by
    rw [List.length_append, List.length_singleton, ← h.nextToken]
    rfl
  scope c' d hd := by
    rcases mem_onDeferred.1 hd with hd | ⟨rfl, rfl⟩
    · exact h.scope c' d hd
    · rfl
  registered c' d hd := by
    rcases mem_onDeferred.1 hd with hd | ⟨rfl, rfl⟩
    · exact getElem?_concat (h.registered c' d hd)
    · rw [h.nextToken]
      exact List.getElem?_concat_length
  ascending c' := by
    simp only [State.onDeferred, Function.update_apply]
    split
    · refine List.pairwise_append.2 ⟨h.ascending c, List.pairwise_singleton _ _, ?_⟩
      intro d hd d' hd'
      rw [List.mem_singleton.1 hd', h.nextToken]
      exact h.deferred_token_lt hd
    · exact h.ascending c'
  apart c' d hd p x hx := by
    rcases mem_onDeferred.1 hd with hd | ⟨rfl, rfl⟩
    · exact h.apart c' d hd p x hx
    · rw [h.nextToken]
      exact (h.token_lt hx).ne
  contexts c' hc' := by
    obtain ⟨d, hd⟩ := List.exists_mem_of_ne_nil _ hc'
    rcases mem_onDeferred.1 hd with hd | ⟨rfl, rfl⟩
    · exact h.contexts c' (List.ne_nil_of_mem hd)
    · exact hc
  waiting hs := absurd hs (by simp [State.onDeferred, hstarted])
  begun := h.begun
  handles := h.handles_concat

/-- `BeanContext::on` either defers the listener or stores it at once. -/
theorem on_cases (s : State) (c : ContextId) (type : Option CppType) (phase : LifecyclePhase)
    (callback : ℕ) (priority : ℤ) :
    (∃ t, type = some t ∧ s.started = false ∧
      s.on c type phase callback priority = s.onDeferred c t phase callback priority) ∨
    s.on c type phase callback priority = s.onDirect c type phase callback priority := by
  cases hs : s.started with
  | true => exact .inr (by simp only [State.on, hs])
  | false =>
    cases type with
    | none => exact .inr (by simp only [State.on, hs])
    | some t => exact .inl ⟨t, rfl, rfl, by simp only [State.on, hs]⟩

/-- `BeanContext::on` keeps the invariant. -/
theorem on (h : Inv regs s) {c : ContextId} (hc : s.HasContext c) (type : Option CppType)
    (phase : LifecyclePhase) (callback : ℕ) (priority : ℤ) :
    Inv (regs ++ [⟨c, type, phase, callback, priority⟩])
      (s.on c type phase callback priority) := by
  rcases on_cases s c type phase callback priority with ⟨t, rfl, hs, heq⟩ | heq
  · rw [heq]
    exact h.onDeferred hc t phase callback priority hs
  · rw [heq]
    exact h.onDirect c type phase callback priority

/-- A removal keeps the invariant. -/
theorem remove (h : Inv regs s) {i : ℕ} {hd : ListenerHandle} (hi : s.handles[i]? = some hd) :
    Inv regs (s.remove i hd) := by
  unfold State.remove
  split
  · have hmem : ∀ p, ∀ x ∈ (s.store.removeByToken hd.token).phases p, x ∈ s.store.phases p := by
      intro p x hx
      rw [Store.phases_removeByToken h.valid.distinct] at hx
      exact List.mem_of_mem_filter hx
    refine ⟨Store.valid_removeByToken h.valid _, Store.removeByToken_published h.published _,
      (Store.nextToken_removeByToken _).trans h.nextToken, h.scope, h.registered, h.ascending,
      fun c d hd p x hx => h.apart c d hd p x (hmem p x hx), h.contexts, h.waiting, h.begun, ?_⟩
    intro x hx
    rcases List.mem_or_eq_of_mem_set hx with hx | rfl
    · exact h.handles x hx
    · exact h.handles hd (List.mem_of_getElem? hi)
  · exact h

theorem flushDeferredListeners_eq (c : ContextId) :
    s.flushDeferredListeners c = if s.deferred c = [] then s else
      { s with
        deferred := update s.deferred c []
        store := (s.store.insertDeferred (s.deferred c)).finalizeListeners } := rfl

/-- The flush of a context keeps the invariant, as long as the start still counts the
    context among those to flush. -/
theorem flushDeferredListeners (h : Inv regs s) (c : ContextId) :
    Inv regs (s.flushDeferredListeners c) := by
  rw [flushDeferredListeners_eq]
  split
  · exact h
  · have hsub : ∀ c', ∀ d ∈ update s.deferred c [] c', c' ≠ c ∧ d ∈ s.deferred c' := by
      intro c' d hd
      rw [Function.update_apply] at hd
      split at hd
      · exact absurd hd List.not_mem_nil
      · exact ⟨‹_›, hd⟩
    have hvalid := Store.valid_insertDeferred h.valid (h.registered c) (h.ascending c) (h.apart c)
    refine ⟨Store.valid_rebuildView hvalid, Store.rebuildView_published,
      (Store.nextToken_insertDeferred _).trans h.nextToken,
      fun c' d hd => h.scope c' d (hsub c' d hd).2,
      fun c' d hd => h.registered c' d (hsub c' d hd).2, fun c' => ?_, ?_, fun c' hc' => ?_,
      fun hs c' hc' => ?_, h.begun, h.handles⟩
    · simp only [Function.update_apply]
      split
      · exact .nil
      · exact h.ascending c'
    · intro c' d hd p x hx
      obtain ⟨hcc, hd⟩ := hsub c' d hd
      rcases Store.mem_phases_insertDeferred.1 hx with ⟨d', hd', _, rfl⟩ | hx
      · -- Listeners of two contexts come from different registrations.
        intro htok
        have hreg := h.registered c d' hd'
        rw [show d'.token = d.token from htok, h.registered c' d hd] at hreg
        have hscope : d.listenerScope = d'.listenerScope :=
          congrArg Registration.context (Option.some.inj hreg)
        rw [h.scope c' d hd, h.scope c d' hd'] at hscope
        exact hcc hscope
      · exact h.apart c' d hd p x hx
    · obtain ⟨d, hd⟩ := List.exists_mem_of_ne_nil _ hc'
      exact h.contexts c' (List.ne_nil_of_mem (hsub c' d hd).2)
    · obtain ⟨d, hd⟩ := List.exists_mem_of_ne_nil _ hc'
      exact h.waiting hs c' (List.ne_nil_of_mem (hsub c' d hd).2)

/-- After its flush, a context has no deferred listeners. -/
theorem deferred_flushDeferredListeners (c : ContextId) :
    (s.flushDeferredListeners c).deferred c = [] := by
  rw [flushDeferredListeners_eq]
  split
  · assumption
  · simp

theorem starting_flushDeferredListeners (c : ContextId) :
    (s.flushDeferredListeners c).starting = s.starting := by
  rw [flushDeferredListeners_eq]
  split <;> rfl

/-- Every step keeps the invariant, with the registration that the step makes. -/
theorem step (h : Inv regs s) {a : Action} (hs : machine.step s a = some s') :
    Inv (regs ++ registrations [a]) s' := by
  cases a with
  | resolveScope name =>
    obtain rfl := Option.some.inj hs
    rw [show registrations [.resolveScope name] = [] from rfl, List.append_nil]
    split
    · exact h
    · refine { h with contexts := fun c hc => ?_ }
      have := h.contexts c hc
      cases c with
      | none => trivial
      | some n => exact List.mem_append_left _ this
  | on c type phase callback priority =>
    obtain ⟨hc, heq⟩ := Option.ite_none_right_eq_some.1 hs
    obtain rfl := Option.some.inj heq
    exact h.on hc type phase callback priority
  | copyHandle i =>
    obtain ⟨hd, hi, rfl⟩ := Option.map_eq_some_iff.1 hs
    rw [show registrations [.copyHandle i] = [] from rfl, List.append_nil]
    refine { h with handles := fun x hx => ?_ }
    rcases List.mem_append.1 hx with hx | hx
    · exact h.handles x hx
    · rw [List.mem_singleton.1 hx]
      exact h.handles hd (List.mem_of_getElem? hi)
  | remove i =>
    obtain ⟨hd, hi, rfl⟩ := Option.map_eq_some_iff.1 hs
    rw [show registrations [.remove i] = [] from rfl, List.append_nil]
    exact h.remove hi
  | start order =>
    obtain ⟨⟨hnone, hperm⟩, heq⟩ := Option.ite_none_right_eq_some.1 hs
    obtain rfl := Option.some.inj heq
    rw [show registrations [.start order] = [] from rfl, List.append_nil]
    refine { h with waiting := fun _ c hc => ⟨_, rfl, ?_⟩, begun := fun _ => rfl }
    have := h.contexts c hc
    cases c with
    | none => exact List.mem_cons_self
    | some n =>
      exact List.mem_cons_of_mem _ (List.mem_map_of_mem (hperm.mem_iff.2 this))
  | flush =>
    rw [show registrations [.flush] = [] from rfl, List.append_nil]
    simp only [machine, State.step] at hs
    split at hs
    · rename_i c rest hst
      obtain rfl := Option.some.inj hs
      have hf := h.flushDeferredListeners c
      refine { hf with waiting := fun hs' c' hc' => ⟨rest, rfl, ?_⟩, begun := fun _ => ?_ }
      · obtain ⟨q, hq, hmem⟩ := hf.waiting hs' c' hc'
        rw [starting_flushDeferredListeners, hst] at hq
        obtain rfl := Option.some.inj hq
        rcases List.mem_cons.1 hmem with rfl | hmem
        · exact absurd (deferred_flushDeferredListeners c') hc'
        · exact hmem
      · refine hf.begun ?_
        rw [starting_flushDeferredListeners, hst]
        exact Option.some_ne_none _
    · exact absurd hs.symm (Option.some_ne_none _)
  | completeStart =>
    obtain ⟨hnil, heq⟩ := Option.ite_none_right_eq_some.1 hs
    obtain rfl := Option.some.inj heq
    rw [show registrations [.completeStart] = [] from rfl, List.append_nil]
    refine { h with waiting := fun hs' c hc => ?_, begun := fun hn => absurd rfl hn }
    obtain ⟨q, hq, hmem⟩ := h.waiting hs' c hc
    rw [hnil] at hq
    obtain rfl := Option.some.inj hq
    exact absurd hmem List.not_mem_nil
  | rollbackFailedStart =>
    obtain ⟨hnil, heq⟩ := Option.ite_none_right_eq_some.1 hs
    obtain rfl := Option.some.inj heq
    rw [show registrations [.rollbackFailedStart] = [] from rfl, List.append_nil]
    exact { h with waiting := fun hs' => absurd hs' Bool.false_ne_true,
                    begun := fun hn => absurd rfl hn }

/-- The invariant along a run. -/
theorem run (h : Inv regs s) {as : List Action} (hr : machine.run s as = some s') :
    Inv (regs ++ registrations as) s' := by
  induction as generalizing s regs with
  | nil =>
    obtain rfl := Option.some.inj hr
    rw [show registrations [] = [] from rfl, List.append_nil]
    exact h
  | cons a as ih =>
    obtain ⟨s₁, hs, hr⟩ := Option.bind_eq_some_iff.mp hr
    rw [registrations_cons, ← List.append_assoc]
    exact ih (h.step hs) hr

end Inv

end Ctorium.Listeners
