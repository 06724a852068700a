import Mathlib.Data.List.Nodup
import Mathlib.Logic.Relation

/-!
# Depth-first walks of an acyclic graph

A recursive procedure that visits the successors of a node, in order, skips those
already seen, marks a new one before it descends into it, and finishes it
afterwards. Since the graph is acyclic, a successor that is seen is finished: the
nodes that are seen but not finished are on the way down, above the current one.

* `walk_foldl`: the walk finishes the nodes of a list, in order;
* `mem_postOrder_iff`, `nodup_postOrder`: these are the nodes reachable from the
  start, each once;
* `pairwise_postOrder`: no node comes before one that is reachable from it.
-/

/-- An acyclic graph: the successors of a node, and a rank that decreases along edges. -/
structure Dag (α : Type*) where
  succ : α → List α
  rank : α → ℕ
  rank_lt : ∀ {a b : α}, b ∈ succ a → rank b < rank a

namespace Dag

variable {α σ : Type*} (G : Dag α)

/-- The second node is reachable from the first by one or more edges. -/
def Reaches (a b : α) : Prop := Relation.TransGen (fun x y => y ∈ G.succ x) a b

section

variable [DecidableEq α]

/-- The walk below a node, from the nodes seen so far and a state that `finish` changes. -/
def walk (finish : σ → α → σ) (a : α) (s : List α × σ) : List α × σ :=
  (G.succ a).foldl (fun s b =>
    if b ∈ s.1 then s else
      let t := walk finish b (s.1 ++ [b], s.2)
      (t.1, finish t.2 b)) s
termination_by G.rank a
decreasing_by exact G.rank_lt ‹_›

/-- The nodes finished by the walk from a node, in order. -/
def postOrder (a : α) : List α := (G.walk (fun out b => out ++ [b]) a ([], [])).2

variable {G}

/-- The walk finishes the nodes that the walk with a list collects. -/
theorem walk_foldl (finish : σ → α → σ) (a : α) (seen out : List α) (s : σ) :
    G.walk finish a (seen, out.foldl finish s) =
      let t := G.walk (fun out b => out ++ [b]) a (seen, out)
      (t.1, t.2.foldl finish s) := by
  have hall (l : List α) (hl : ∀ b ∈ l, b ∈ G.succ a) (seen out : List α) :
      l.foldl (fun s b =>
          if b ∈ s.1 then s else
            let t := G.walk finish b (s.1 ++ [b], s.2)
            (t.1, finish t.2 b)) (seen, out.foldl finish s) =
        let t := l.foldl (fun s b =>
          if b ∈ s.1 then s else
            let t := G.walk (fun out b => out ++ [b]) b (s.1 ++ [b], s.2)
            (t.1, t.2 ++ [b])) (seen, out)
        (t.1, t.2.foldl finish s) := by
    -- Along the successors; the walk below each of them is shorter.
    induction l generalizing seen out with
    | nil => rfl
    | cons b l ih =>
      have hb := hl b List.mem_cons_self
      have hl := fun c hc => hl c (List.mem_cons_of_mem _ hc)
      rw [List.foldl_cons, List.foldl_cons]
      by_cases hseen : b ∈ seen
      · rw [if_pos hseen, if_pos hseen]
        exact ih hl seen out
      · rw [if_neg hseen, if_neg hseen, walk_foldl finish b]
        have := ih hl (G.walk (fun out b => out ++ [b]) b (seen ++ [b], out)).1
          ((G.walk (fun out b => out ++ [b]) b (seen ++ [b], out)).2 ++ [b])
        rw [List.foldl_append] at this
        exact this
  rw [walk, walk]
  exact hall _ (fun _ h => h) seen out
termination_by G.rank a
decreasing_by exact G.rank_lt hb

end

variable {G}

theorem Reaches.rank_lt {a b : α} (h : G.Reaches a b) : G.rank b < G.rank a := by
  induction h with
  | single hab => exact G.rank_lt hab
  | tail _ hbc ih => exact Nat.lt_trans (G.rank_lt hbc) ih

/-! ## The walk -/

/-- The nodes seen and the nodes finished, at a point of the walk below a node. -/
structure Walked (G : Dag α) (a : α) (s : List α × List α) : Prop where
  seen : ∀ x ∈ s.2, x ∈ s.1
  nodup : s.2.Nodup
  /-- What is reachable from a finished node is finished. -/
  closed : ∀ x ∈ s.2, ∀ y ∈ G.succ x, y ∈ s.2
  /-- A node that is seen but not finished is on the way down. -/
  above : ∀ x ∈ s.1, x ∉ s.2 → G.rank a ≤ G.rank x
  ordered : s.2.Pairwise fun x y => ¬ G.Reaches x y

/-- What a part of the walk does: it finishes the given nodes and nothing but new nodes below
    the current one, and starts nothing that it does not finish. -/
structure Finishes (G : Dag α) (a : α) (l : List α) (s s' : List α × List α) : Prop where
  walked : G.Walked a s'
  kept : ∀ x ∈ s.2, x ∈ s'.2
  fresh : ∀ x ∈ s'.2, x ∈ s.2 ∨ x ∉ s.1 ∧ G.Reaches a x
  started : ∀ x ∈ s'.1, x ∈ s.1 ∨ x ∈ s'.2
  grown : ∀ x ∈ s.1, x ∈ s'.1
  done : ∀ b ∈ l, b ∈ s'.2

namespace Walked

variable {a b : α} {s s' : List α × List α}

/-- A finished node reaches finished nodes only. -/
theorem mem_of_reaches (h : G.Walked a s) {x y : α} (hx : x ∈ s.2) (hxy : G.Reaches x y) :
    y ∈ s.2 := by
  induction hxy with
  | single hxy => exact h.closed x hx _ hxy
  | tail _ hyz ih => exact h.closed _ ih _ hyz

/-- A successor that is seen is finished. -/
theorem finished (h : G.Walked a s) (hb : b ∈ G.succ a) (hseen : b ∈ s.1) : b ∈ s.2 := by
  by_contra hb'
  exact absurd (h.above b hseen hb') (Nat.not_le_of_gt (G.rank_lt hb))

/-- The walk goes down to a new successor. -/
theorem down (h : G.Walked a s) (hb : b ∈ G.succ a) : G.Walked b (s.1 ++ [b], s.2) where
  seen x hx := List.mem_append_left _ (h.seen x hx)
  nodup := h.nodup
  closed := h.closed
  above x hx hx' := by
    rcases List.mem_append.1 hx with hx | hx
    · exact Nat.le_trans (Nat.le_of_lt (G.rank_lt hb)) (h.above x hx hx')
    · exact Nat.le_of_eq (congrArg G.rank (List.mem_singleton.1 hx).symm)
  ordered := h.ordered

/-- The walk below a new successor, and the finish of the successor. -/
theorem finishes_of_new (h : G.Walked a s) (hb : b ∈ G.succ a) (hnew : b ∉ s.1)
    (hf : G.Finishes b (G.succ b) (s.1 ++ [b], s.2) s') :
    G.Finishes a [b] s (s'.1, s'.2 ++ [b]) where
  walked :=
    have hb' : b ∉ s'.2 := by
      intro hmem
      rcases hf.fresh b hmem with hmem | ⟨hmem, _⟩
      · exact hnew (h.seen b hmem)
      · exact hmem (List.mem_append_right _ (List.mem_singleton_self b))
    { seen := by
        intro x hx
        rcases List.mem_append.1 hx with hx | hx
        · exact hf.walked.seen x hx
        · rw [List.mem_singleton.1 hx]
          exact hf.grown b (List.mem_append_right _ (List.mem_singleton_self b))
      nodup := by
        refine List.nodup_append.2 ⟨hf.walked.nodup, List.nodup_singleton b, fun x hx y hy => ?_⟩
        rintro rfl
        exact hb' (List.mem_singleton.1 hy ▸ hx)
      closed := by
        intro x hx y hy
        rcases List.mem_append.1 hx with hx | hx
        · exact List.mem_append_left _ (hf.walked.closed x hx y hy)
        · rw [List.mem_singleton.1 hx] at hy
          exact List.mem_append_left _ (hf.done y hy)
      above := by
        intro x hx hx'
        have hx' := not_or.1 (mt List.mem_append.2 hx')
        rcases hf.started x hx with hx | hx
        · rcases List.mem_append.1 hx with hx | hx
          · exact h.above x hx fun hmem => hx'.1 (hf.kept x hmem)
          · exact absurd hx hx'.2
        · exact absurd hx hx'.1
      ordered := by
        refine List.pairwise_append.2 ⟨hf.walked.ordered, List.pairwise_singleton _ _, ?_⟩
        -- All that is reachable from a finished node was finished before.
        intro x hx y hy hreach
        rw [List.mem_singleton.1 hy] at hreach
        exact hb' (hf.walked.mem_of_reaches hx hreach) }
  kept x hx := List.mem_append_left _ (hf.kept x hx)
  fresh x hx := by
    rcases List.mem_append.1 hx with hx | hx
    · rcases hf.fresh x hx with hx | ⟨hx, hreach⟩
      · exact .inl hx
      · exact .inr ⟨fun hmem => hx (List.mem_append_left _ hmem), .head hb hreach⟩
    · rw [List.mem_singleton.1 hx]
      exact .inr ⟨hnew, .single hb⟩
  started x hx := by
    rcases hf.started x hx with hx | hx
    · rcases List.mem_append.1 hx with hx | hx
      · exact .inl hx
      · exact .inr (List.mem_append_right _ hx)
    · exact .inr (List.mem_append_left _ hx)
  grown x hx := hf.grown x (List.mem_append_left _ hx)
  done x hx := List.mem_append_right _ hx

end Walked

namespace Finishes

variable {a b : α} {l l' : List α} {s s' s'' : List α × List α}

theorem refl (h : G.Walked a s) (hl : ∀ b ∈ l, b ∈ s.2) : G.Finishes a l s s where
  walked := h
  kept := fun _ hx => hx
  fresh := fun _ hx => .inl hx
  started := fun _ hx => .inl hx
  grown := fun _ hx => hx
  done := hl

/-- One part of the walk after another. -/
theorem append (h : G.Finishes a l s s') (h' : G.Finishes a l' s' s'') :
    G.Finishes a (l ++ l') s s'' where
  walked := h'.walked
  kept x hx := h'.kept x (h.kept x hx)
  fresh x hx := by
    rcases h'.fresh x hx with hx | ⟨hx, hreach⟩
    · exact h.fresh x hx
    · exact .inr ⟨fun hmem => hx (h.grown x hmem), hreach⟩
  started x hx := by
    rcases h'.started x hx with hx | hx
    · rcases h.started x hx with hx | hx
      · exact .inl hx
      · exact .inr (h'.kept x hx)
    · exact .inr hx
  grown x hx := h'.grown x (h.grown x hx)
  done x hx := by
    rcases List.mem_append.1 hx with hx | hx
    · exact h'.kept x (h.done x hx)
    · exact h'.done x hx

end Finishes

/-! ## The nodes of a walk -/

section

variable [DecidableEq α]

/-- The walk below a node finishes its successors. -/
theorem Walked.finishes {a : α} {s : List α × List α} (h : G.Walked a s) :
    G.Finishes a (G.succ a) s (G.walk (fun out b => out ++ [b]) a s) := by
  have hall (l : List α) (hl : ∀ b ∈ l, b ∈ G.succ a) {s : List α × List α} (h : G.Walked a s) :
      G.Finishes a l s (l.foldl (fun s b =>
        if b ∈ s.1 then s else
          let t := G.walk (fun out b => out ++ [b]) b (s.1 ++ [b], s.2)
          (t.1, t.2 ++ [b])) s) := by
    induction l generalizing s with
    | nil => exact .refl h fun _ hb => absurd hb List.not_mem_nil
    | cons b l ih =>
      have hb := hl b List.mem_cons_self
      have hl := fun c hc => hl c (List.mem_cons_of_mem _ hc)
      rw [List.foldl_cons, ← List.singleton_append]
      by_cases hseen : b ∈ s.1
      · -- A base that is seen is finished: nothing is left to do.
        rw [if_pos hseen]
        refine (Finishes.refl h fun c hc => ?_).append (ih hl h)
        rw [List.mem_singleton.1 hc]
        exact h.finished hb hseen
      · rw [if_neg hseen]
        have hnew := h.finishes_of_new hb hseen (h.down hb).finishes
        exact hnew.append (ih hl hnew.walked)
  rw [walk]
  exact hall _ (fun _ hb => hb) h
termination_by G.rank a
decreasing_by exact G.rank_lt hb

theorem finishes_postOrder (a : α) : G.Finishes a (G.succ a) ([], [])
    (G.walk (fun out b => out ++ [b]) a ([], [])) :=
  Walked.finishes
    { seen := fun _ hx => absurd hx List.not_mem_nil
      nodup := .nil
      closed := fun _ hx => absurd hx List.not_mem_nil
      above := fun _ hx => absurd hx List.not_mem_nil
      ordered := .nil }

/-- The walk finishes the nodes that are reachable from its start. -/
theorem mem_postOrder_iff {a b : α} : b ∈ G.postOrder a ↔ G.Reaches a b := by
  have hf := G.finishes_postOrder a
  constructor
  · intro hb
    rcases hf.fresh b hb with hb | ⟨_, hreach⟩
    · exact absurd hb List.not_mem_nil
    · exact hreach
  · intro hreach
    obtain ⟨c, hc, hcb⟩ := Relation.TransGen.head'_iff.1 hreach
    rcases Relation.reflTransGen_iff_eq_or_transGen.1 hcb with rfl | hcb
    · exact hf.done b hc
    · exact hf.walked.mem_of_reaches (hf.done c hc) hcb

theorem nodup_postOrder (a : α) : (G.postOrder a).Nodup := (G.finishes_postOrder a).walked.nodup

/-- No node comes before one that is reachable from it. -/
theorem pairwise_postOrder (a : α) : (G.postOrder a).Pairwise fun x y => ¬ G.Reaches x y :=
  (G.finishes_postOrder a).walked.ordered

end

end Dag
