import Ctorium.Listeners.Invariant

/-!
# The dispatch of the store

What the store is for: of the registered listeners, an event reaches those of its
phase whose type and scope filter it passes, by descending priority and then by
registration. The store itself keeps a sorted list for each phase, into which a
new entry is rotated, and a view that splits it by type; a dispatch merges the
type-agnostic listeners of the view with those of the type of the bean.

The sentinels are the value `none` here: the type filter `kInvalidTypeId`, the
scope filter `kAllScopes`, and the emitter scope `kNoScope`.

* `Store.insertEntry_eq`: the insertion by `push_back`, `upper_bound` and `rotate`;
* `Store.dispatchFromView_eq`: the dispatch by the loops over the two lists;
* `Represents.run`: along all calls, the store is the one of the registered listeners;
* `dispatch_registered`: a dispatch calls the listeners that the registry says, and
  the sizes of the phases are the numbers of their registered listeners.
-/

namespace Ctorium.Listeners

open Function (update)
open ListenerStore (LifecyclePhase)

/-- `clear`: remove all registrations, and the view. -/
def Store.clear (st : Store) : Store :=
  { st with phases := fun _ => [], phaseSizes := fun _ => 0, view := none }

/-- `hasListeners`. -/
def Store.hasListeners (st : Store) (p : LifecyclePhase) : Bool := st.phaseSizes p != 0

/-- A call that changes the store. -/
inductive Op
  | addListener (phase : LifecyclePhase) (typeId : Option TypeId) (listenerScope : Option NameId)
      (callback : Wrapper) (priority : ℤ)
  | removeByToken (token : ℕ)
  | clear
  deriving DecidableEq, Repr

/-- The store after a call. -/
def Store.apply (st : Store) : Op → Store
  | .addListener phase typeId listenerScope callback priority =>
    st.addListener phase typeId listenerScope callback priority
  | .removeByToken token => st.removeByToken token
  | .clear => st.clear

/-- The store after a list of calls. -/
def Store.after (ops : List Op) : Store := ops.foldl Store.apply {}

/-! ## The registered listeners -/

/-- The listeners that are registered, in the order of their registration. -/
structure Registered where
  entries : List Entry := []
  nextToken : ℕ := 0

/-- The registered listeners after a call. -/
def Registered.apply (r : Registered) : Op → Registered
  | .addListener phase typeId listenerScope callback priority =>
    { entries := r.entries ++ [⟨typeId, listenerScope, callback, priority, r.nextToken, phase⟩]
      nextToken := r.nextToken + 1 }
  | .removeByToken token => { r with entries := r.entries.filter (·.token ≠ token) }
  | .clear => { r with entries := [] }

/-- The registered listeners after a list of calls. -/
def Registered.after (ops : List Op) : Registered := ops.foldl Registered.apply {}

/-- The event is one of the phase of the entry, and passes its filters. -/
def Entry.Matches (x : Entry) (e : Event) : Prop :=
  x.phase = e.phase ∧ (x.typeId = none ∨ x.typeId = some e.beanTypeId) ∧
    (x.listenerScope = none ∨ x.listenerScope = e.emitterScope)

instance (x : Entry) (e : Event) : Decidable (x.Matches e) := by
  unfold Entry.Matches
  infer_instance

/-- The order of the callbacks of an event: by descending priority and then by ascending
    token. -/
def ViewEntry.Before (a b : ViewEntry) : Prop :=
  b.priority < a.priority ∨ a.priority = b.priority ∧ a.token < b.token

theorem ViewEntry.Before.trans {a b c : ViewEntry} (hab : a.Before b) (hbc : b.Before c) :
    a.Before c := by
  unfold ViewEntry.Before at *
  omega

/-! ## The loops of the source -/

namespace Store

/-- The entries of a phase after `push_back`, `upper_bound` in the entries before, and
    `rotate`. -/
def pushBackRotate (entries : List Entry) (e : Entry) : List Entry :=
  let vec := entries ++ [e]
  let pos := entries.findIdx fun x => e.priority > x.priority
  vec.take pos ++ (vec.drop pos).rotate (entries.length - pos)

/-- The insertion of an entry is the one by `push_back`, `upper_bound` and `rotate`. -/
theorem insertEntry_eq (st : Store) (e : Entry) :
    (st.insertEntry e).phases e.phase = pushBackRotate (st.phases e.phase) e := by
  rw [phases_insertEntry, if_pos rfl]
  exact (List.rotate_findIdx_eq _ _).symm

/-- The scope filter of a listener passes beans of the scope. -/
def passes (emitterScope : Option NameId) (ve : ViewEntry) : Bool :=
  ve.listenerScope = none || ve.listenerScope = emitterScope

/-- The loops of `dispatchFromView_` over the type-agnostic listeners and those of the type:
    the listeners whose callbacks are called, in this order. -/
def visit (emitterScope : Option NameId) : List ViewEntry → List ViewEntry → List ViewEntry
  | g :: globals, t :: typeds =>
    if globalFirst g t then
      if passes emitterScope g then g :: visit emitterScope globals (t :: typeds)
      else visit emitterScope globals (t :: typeds)
    else
      if passes emitterScope t then t :: visit emitterScope (g :: globals) typeds
      else visit emitterScope (g :: globals) typeds
  | globals, [] => globals.filter (passes emitterScope)
  | [], typeds => typeds.filter (passes emitterScope)
  termination_by globals typeds => globals.length + typeds.length

theorem visit_eq (emitterScope : Option NameId) (globals typeds : List ViewEntry) :
    visit emitterScope globals typeds =
      (globals.merge typeds globalFirst).filter (passes emitterScope) := by
  fun_induction visit emitterScope globals typeds with
  | case1 g globals t typeds hlt hg ih =>
    rw [List.cons_merge_cons, if_pos hlt, List.filter_cons_of_pos hg, ih]
  | case2 g globals t typeds hlt hg ih =>
    rw [List.cons_merge_cons, if_pos hlt, List.filter_cons_of_neg hg, ih]
  | case3 g globals t typeds hlt ht ih =>
    rw [List.cons_merge_cons, if_neg hlt, List.filter_cons_of_pos ht, ih]
  | case4 g globals t typeds hlt ht ih =>
    rw [List.cons_merge_cons, if_neg hlt, List.filter_cons_of_neg ht, ih]
  | case5 globals => rw [List.merge_right]
  | case6 typeds => rw [List.nil_merge]

/-- A dispatch calls the listeners that the loops visit. -/
theorem dispatchFromView_eq (pv : PhaseView) (e : Event) :
    dispatchFromView pv e = visit e.emitterScope pv.global (pv.typed e.beanTypeId) :=
  (visit_eq _ _ _).symm

/-! ## The merge of a view -/

/-- The merged lists of a view are the listeners for the type. -/
theorem merge_phaseView_perm (entries : List Entry) (t : TypeId) :
    ((phaseView entries).global.merge ((phaseView entries).typed t) globalFirst).Perm
      ((entries.filter fun x => x.typeId = none ∨ x.typeId = some t).map Entry.toView) := by
  refine (List.merge_perm_append _).trans ?_
  simp only [phaseView]
  rw [← List.map_append]
  refine List.Perm.map _ ?_
  refine List.Perm.trans (List.Perm.of_eq ?_)
    (List.filter_append_perm (fun x : Entry => x.typeId = none)
      (entries.filter fun x => x.typeId = none ∨ x.typeId = some t))
  rw [List.filter_filter, List.filter_filter]
  congr 1 <;> refine List.filter_congr fun x _ => ?_
  all_goals by_cases hx : x.typeId = none <;> simp [hx]

/-- The merge of a view keeps the listeners in order. -/
theorem pairwise_merge_phaseView {entries : List Entry}
    (h : entries.Pairwise fun a b => a.toView.Before b.toView) (t : TypeId) :
    ((phaseView entries).global.merge ((phaseView entries).typed t) globalFirst).Pairwise
      ViewEntry.Before := by
  have hfilter (f : Entry → Bool) :
      ((entries.filter f).map Entry.toView).Pairwise ViewEntry.Before :=
    List.pairwise_map.2 (h.filter f)
  refine List.pairwise_merge_of (R := ViewEntry.Before) ViewEntry.Before.trans (hfilter _)
    (hfilter _) fun a ha b hb => ?_
  obtain ⟨x, hx, rfl⟩ := List.mem_map.1 ha
  obtain ⟨y, hy, rfl⟩ := List.mem_map.1 hb
  obtain ⟨hx, hxt⟩ := List.mem_filter.1 hx
  obtain ⟨hy, hyt⟩ := List.mem_filter.1 hy
  have hne : x ≠ y := by
    rintro rfl
    simp_all
  -- One of the two listeners comes before the other, and the comparison says which.
  have hor : x.toView.Before y.toView ∨ y.toView.Before x.toView := h.or_of_ne hx hy hne
  unfold ViewEntry.Before at hor ⊢
  simp only [globalFirst, Bool.or_eq_true, Bool.and_eq_true, decide_eq_true_eq]
  split <;> omega

end Store

/-! ## The invariant -/

/-- The store is the one of the registered listeners. -/
structure Represents (st : Store) (r : Registered) : Prop where
  nextToken : st.nextToken = r.nextToken
  token_lt : ∀ x ∈ r.entries, x.token < r.nextToken
  ascending : r.entries.Pairwise fun a b => a.token < b.token
  perm : ∀ p, (st.phases p).Perm (r.entries.filter (·.phase = p))
  sorted : ∀ p, (st.phases p).Pairwise fun a b => a.toView.Before b.toView
  sizes : ∀ p, st.phaseSizes p = (st.phases p).length
  published : st.Published

namespace Represents

variable {st : Store} {r : Registered}

theorem initial : Represents {} {} where
  nextToken := rfl
  token_lt := fun _ hx => absurd hx List.not_mem_nil
  ascending := .nil
  perm := fun _ => .nil
  sorted := fun _ => .nil
  sizes := fun _ => rfl
  published := .inl fun _ => rfl

theorem mem_phases_iff (h : Represents st r) {p : LifecyclePhase} {x : Entry} :
    x ∈ st.phases p ↔ x ∈ r.entries ∧ x.phase = p := by
  rw [(h.perm p).mem_iff, List.mem_filter, decide_eq_true_eq]

theorem eq_of_token (h : Represents st r) {x y : Entry} (hx : x ∈ r.entries) (hy : y ∈ r.entries)
    (hxy : x.token = y.token) : x = y := by
  by_contra hne
  have hor : x.token < y.token ∨ y.token < x.token := h.ascending.or_of_ne hx hy hne
  omega

theorem distinct (h : Represents st r) : st.Distinct where
  nodup p := (h.sorted p).imp_of_mem fun {a b} ha hb hab htoken => by
    obtain rfl := h.eq_of_token (h.mem_phases_iff.1 ha).1 (h.mem_phases_iff.1 hb).1 htoken
    unfold ViewEntry.Before at hab
    omega
  phase_unique p x hx q y hy hxy := by
    obtain ⟨hxr, rfl⟩ := h.mem_phases_iff.1 hx
    obtain ⟨hyr, rfl⟩ := h.mem_phases_iff.1 hy
    rw [h.eq_of_token hxr hyr hxy]

theorem addListener (h : Represents st r) (phase : LifecyclePhase) (typeId : Option TypeId)
    (listenerScope : Option NameId) (callback : Wrapper) (priority : ℤ) :
    Represents (st.addListener phase typeId listenerScope callback priority)
      (r.apply (.addListener phase typeId listenerScope callback priority)) where
  nextToken := congrArg Nat.succ h.nextToken
  token_lt x hx := by
    rcases List.mem_append.1 hx with hx | hx
    · exact Nat.lt_succ_of_lt (h.token_lt x hx)
    · obtain rfl := List.mem_singleton.1 hx
      exact Nat.lt_succ_self _
  ascending := by
    refine List.pairwise_append.2 ⟨h.ascending, List.pairwise_singleton _ _, fun a ha b hb => ?_⟩
    obtain rfl := List.mem_singleton.1 hb
    exact h.token_lt a ha
  perm p := by
    simp only [Store.addListener, Registered.apply, Store.phases_rebuildView,
      Store.phases_insertEntry, Store.phases_reserveToken, List.filter_append]
    rw [h.nextToken]
    split
    · rename_i hp
      rw [List.filter_cons_of_pos (by simpa using hp), List.filter_nil]
      refine (List.perm_orderedInsert _ _ _).trans ?_
      exact ((h.perm p).cons _).trans (List.perm_append_singleton _ _).symm
    · rename_i hp
      rw [List.filter_cons_of_neg (by simpa using hp), List.filter_nil, List.append_nil]
      exact h.perm p
  sorted p := by
    simp only [Store.addListener, Store.phases_rebuildView, Store.phases_insertEntry,
      Store.phases_reserveToken]
    have hle : (st.phases p).Pairwise fun a b => b.priority ≤ a.priority :=
      (h.sorted p).imp fun {a b} hab => by
        rcases hab with hlt | ⟨heq, _⟩
        · exact hlt.le
        · exact heq.ge
    split
    · refine (List.pairwise_stableInsert hle _).2 ⟨h.sorted p, fun b hb hge => ?_,
        fun b _ hlt => .inl hlt⟩
      -- The new token is the greatest one.
      have htoken : b.token < st.nextToken := by
        rw [h.nextToken]
        exact h.token_lt b (h.mem_phases_iff.1 hb).1
      rcases lt_or_eq_of_le hge with hlt | heq
      · exact .inl hlt
      · exact .inr ⟨heq.symm, htoken⟩
    · exact h.sorted p
  sizes p := by
    simp only [Store.addListener, Store.phases_rebuildView, Store.phases_insertEntry]
    simp only [Store.rebuildView, Store.insertEntry, Store.reserveToken, Function.update_apply]
    by_cases hp : phase = p
    · subst hp
      rw [if_pos rfl, if_pos rfl, h.sizes, List.orderedInsert_length]
    · rw [if_neg (Ne.symm hp), if_neg hp, h.sizes]
  published := Store.rebuildView_published

theorem removeByToken (h : Represents st r) (token : ℕ) :
    Represents (st.removeByToken token) (r.apply (.removeByToken token)) where
  nextToken := (Store.nextToken_removeByToken token).trans h.nextToken
  token_lt x hx := h.token_lt x (List.mem_of_mem_filter hx)
  ascending := h.ascending.filter _
  perm p := by
    rw [Store.phases_removeByToken h.distinct]
    refine ((h.perm p).filter _).trans (List.Perm.of_eq ?_)
    simp only [Registered.apply, List.filter_filter]
    exact List.filter_congr fun x _ => Bool.and_comm _ _
  sorted p := by
    rw [Store.phases_removeByToken h.distinct]
    exact (h.sorted p).filter _
  sizes p := Store.sizes_removeByToken h.sizes token p
  published := Store.removeByToken_published h.published token

theorem clear (h : Represents st r) : Represents st.clear (r.apply .clear) where
  nextToken := h.nextToken
  token_lt := fun _ hx => absurd hx List.not_mem_nil
  ascending := .nil
  perm := fun _ => .nil
  sorted := fun _ => .nil
  sizes := fun _ => rfl
  published := .inl fun _ => rfl

/-- A call keeps the store the one of the registered listeners. -/
theorem apply (h : Represents st r) (op : Op) : Represents (st.apply op) (r.apply op) := by
  cases op with
  | addListener phase typeId listenerScope callback priority =>
    exact h.addListener phase typeId listenerScope callback priority
  | removeByToken token => exact h.removeByToken token
  | clear => exact h.clear

/-- So do all calls. -/
theorem foldl (h : Represents st r) (ops : List Op) :
    Represents (ops.foldl Store.apply st) (ops.foldl Registered.apply r) := by
  induction ops generalizing st r with
  | nil => exact h
  | cons op ops ih => exact ih (h.apply op)

theorem after (ops : List Op) : Represents (Store.after ops) (Registered.after ops) :=
  initial.foldl ops

/-- The size of a phase is the number of its registered listeners. -/
theorem phaseSizes (h : Represents st r) (p : LifecyclePhase) :
    st.phaseSizes p = r.entries.countP (·.phase = p) := by
  rw [h.sizes, (h.perm p).length_eq, List.countP_eq_length_filter]

/-- Neither early exit drops a listener: the dispatch is the one of the view of the entries. -/
theorem dispatch_eq (h : Represents st r) (e : Event) :
    st.dispatch e = Store.dispatchFromView (Store.phaseView (st.phases e.phase)) e := by
  by_cases hsize : st.phaseSizes e.phase = 0
  · have hnil : st.phases e.phase = [] := List.length_eq_zero_iff.1 (h.sizes _ ▸ hsize)
    rw [Store.dispatch, if_pos hsize, hnil, Store.dispatchFromView, Store.phaseView]
    simp only [List.filter_nil, List.map_nil, List.nil_merge]
  · rw [Store.dispatch, if_neg hsize]
    rcases h.published with hnil | hview
    · rw [h.sizes, hnil] at hsize
      exact absurd rfl hsize
    · rw [hview]

/-- A dispatch calls the registered listeners that match the event. -/
theorem dispatch_perm (h : Represents st r) (e : Event) :
    (st.dispatch e).Perm ((r.entries.filter (·.Matches e)).map Entry.toView) := by
  rw [h.dispatch_eq]
  refine ((Store.merge_phaseView_perm _ _).filter _).trans ?_
  rw [List.filter_map, List.filter_filter]
  refine (((h.perm e.phase).filter _).trans (List.Perm.of_eq ?_)).map _
  rw [List.filter_filter]
  refine List.filter_congr fun x _ => ?_
  rw [Bool.eq_iff_iff]
  simp only [Function.comp_apply, Bool.and_eq_true, Bool.or_eq_true, decide_eq_true_eq]
  unfold Entry.Matches Entry.toView
  tauto

/-- A dispatch calls its listeners in order. -/
theorem dispatch_pairwise (h : Represents st r) (e : Event) :
    (st.dispatch e).Pairwise ViewEntry.Before := by
  rw [h.dispatch_eq]
  exact (Store.pairwise_merge_phaseView (h.sorted _) _).filter _

end Represents

/-! ## All calls -/

/-- After any calls, a dispatch calls each registered listener that matches the event once, in
    order; the sizes of the phases are those of the registered listeners, and `hasListeners`
    says whether there are any. -/
theorem dispatch_registered (ops : List Op) :
    (∀ e, ((Store.after ops).dispatch e).Perm
        (((Registered.after ops).entries.filter (·.Matches e)).map Entry.toView) ∧
      ((Store.after ops).dispatch e).Pairwise ViewEntry.Before) ∧
    ((Registered.after ops).entries.map Entry.token).Nodup ∧
    ∀ p, (Store.after ops).phaseSizes p = (Registered.after ops).entries.countP (·.phase = p) ∧
      ((Store.after ops).hasListeners p = true ↔
        ∃ x ∈ (Registered.after ops).entries, x.phase = p) := by
  have h := Represents.after ops
  refine ⟨fun e => ⟨h.dispatch_perm e, h.dispatch_pairwise e⟩, ?_, fun p => ⟨h.phaseSizes p, ?_⟩⟩
  · exact List.pairwise_map.2 (h.ascending.imp fun hlt => hlt.ne)
  · rw [Store.hasListeners, h.phaseSizes, bne_iff_ne, ← Nat.pos_iff_ne_zero, List.countP_pos_iff]
    simp only [decide_eq_true_eq]

end Ctorium.Listeners
