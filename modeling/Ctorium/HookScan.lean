import Ctorium.Basic
import Ctorium.Lib.PostOrder
import Ctorium.Lib.Precedes

/-!
# The scan for lifecycle hooks

`scanMembers` collects the constructor and the lifecycle hooks of a bean type at
compile time. It descends into the public bases, with one list of visited types
for the whole hierarchy, and scans the members of a base after those of its own
bases, so that the shared base of a diamond is scanned once and before all types
that derive from it. `postConstruct` hooks run in the order in which they were
collected, `preDestroy` hooks in the reverse one.

* `scanBaseHooks_eq_walk`: the scan is the depth-first walk of the graph of public
  bases, which scans the members of the types in post-order;
* `scanMembers_hooks`: so the hooks are those of the types in this order;
* `scanMembers_inHookOrder`: they are the annotated methods of the type and of its
  public bases, each once, bases first and the type last.
* `amphibious_inHookOrder`: the hooks of a virtual diamond.
-/

namespace Ctorium.HookScan

/-! ## Reflection -/

/-- An element of `bases_of`: the base type, without aliases, and whether it is public. -/
structure BaseRelation (τ : Type*) where
  type : τ
  isPublic : Bool

/-- The annotations of a member, by their types. -/
inductive Annotation
  | postConstruct
  | preDestroy
  | other (type : ℕ)
  deriving DecidableEq, Repr

/-- What `std::meta` says of the types and members of a program. -/
structure Reflection (τ μ : Type*) where
  basesOf : τ → List (BaseRelation τ)
  /-- `members_of`: the members of a class, in the order of their definition. -/
  membersOf : τ → List μ
  parentOf : μ → τ
  parametersOf : μ → List τ
  isConstructor : μ → Bool
  isType : μ → Bool
  isSpecialMemberFunction : μ → Bool
  annotationsOf : μ → List Annotation
  /-- Whether a parameter type is a `Bean`. -/
  isBeanType : τ → Bool
  /-- When the class is defined. -/
  definedAt : τ → ℕ
  /-- A base is a complete type, so it is defined first. -/
  definedAt_lt : ∀ {t b}, b ∈ basesOf t → definedAt b.type < definedAt t
  nodup_membersOf : ∀ t, (membersOf t).Nodup
  parentOf_eq : ∀ {t m}, m ∈ membersOf t → parentOf m = t
  /-- The hook thunks take the address of a hook, so that a constructor that the scan of a base
      collects does not compile. -/
  constructor_annotations : ∀ {t b m}, b ∈ basesOf t → b.isPublic → m ∈ membersOf b.type →
    isConstructor m → isSpecialMemberFunction m = false → ∀ k ∈ annotationsOf m, ∃ n, k = .other n

/-- The lists of hooks that a scan collects. -/
inductive HookKind
  | postConstruct
  | preDestroy
  deriving DecidableEq, Repr

def HookKind.annotation : HookKind → Annotation
  | .postConstruct => .postConstruct
  | .preDestroy => .preDestroy

/-! ## The scan -/

/-- `MemberScan`, with the count of compatible constructors. -/
structure MemberScan (μ : Type*) where
  ctor : Option μ := none
  compatibleConstructorConflict : Bool := false
  compatibleConstructorCount : ℕ := 0
  postConstruct : List μ := []
  preDestroy : List μ := []

/-- The hooks of a kind. -/
def MemberScan.hooks {μ : Type*} (s : MemberScan μ) : HookKind → List μ
  | .postConstruct => s.postConstruct
  | .preDestroy => s.preDestroy

namespace Reflection

variable {τ μ : Type*} (R : Reflection τ μ)

def memberHasAnnotationOfType (m : μ) (a : Annotation) : Bool :=
  (R.annotationsOf m).any (· = a)

/-- The body of the loop of `scanMembersOfType`. -/
def scanMember (includeConstructors : Bool) (s : MemberScan μ) (m : μ) : MemberScan μ :=
  if includeConstructors && R.isConstructor m then
    if (R.parametersOf m).all R.isBeanType then
      { s with
        compatibleConstructorCount := s.compatibleConstructorCount + 1
        compatibleConstructorConflict :=
          s.compatibleConstructorConflict || s.compatibleConstructorCount + 1 ≥ 2
        ctor := some m }
    else s
  else if !R.isType m && !R.isSpecialMemberFunction m then
    { s with
      postConstruct := if R.memberHasAnnotationOfType m .postConstruct
        then s.postConstruct ++ [m] else s.postConstruct
      preDestroy := if R.memberHasAnnotationOfType m .preDestroy
        then s.preDestroy ++ [m] else s.preDestroy }
  else s

def scanMembersOfType (t : τ) (includeConstructors : Bool) (s : MemberScan μ) : MemberScan μ :=
  (R.membersOf t).foldl (R.scanMember includeConstructors) s

/-- `scanBaseHooks`, with the list of visited base types. -/
def scanBaseHooks [DecidableEq τ] (t : τ) (s : List τ × MemberScan μ) : List τ × MemberScan μ :=
  (R.basesOf t).foldl (fun s base =>
    if base.isPublic then
      if base.type ∈ s.1 then s else
        let s' := scanBaseHooks base.type (s.1 ++ [base.type], s.2)
        (s'.1, R.scanMembersOfType base.type false s'.2)
    else s) s
termination_by R.definedAt t
decreasing_by exact R.definedAt_lt ‹_›

def scanMembers [DecidableEq τ] (t : τ) : MemberScan μ :=
  R.scanMembersOfType t true (R.scanBaseHooks t ([], {})).2

/-- The loop of `reverseInfos`, from the last of `i` elements down. -/
def reverseInfos (infos : List μ) : ℕ → List μ → List μ
  | 0, result => result
  | i + 1, result => reverseInfos infos i (result ++ infos[i]?.toList)

/-- The hooks that `preDestroyThunkImpl` runs, in order. -/
def preDestroyThunk [DecidableEq τ] (t : τ) : List μ :=
  reverseInfos (R.scanMembers t).preDestroy (R.scanMembers t).preDestroy.length []

/-! ## The order of the hooks -/

/-- A method that carries the annotation of a hook. -/
def IsHook (k : HookKind) (m : μ) : Prop :=
  R.isConstructor m = false ∧ R.isType m = false ∧ R.isSpecialMemberFunction m = false ∧
    k.annotation ∈ R.annotationsOf m

/-- The graph of the public bases. -/
def publicBases : Dag τ where
  succ t := ((R.basesOf t).filter (·.isPublic)).map (·.type)
  rank := R.definedAt
  rank_lt h := by
    obtain ⟨b, hb, rfl⟩ := List.mem_map.1 h
    exact R.definedAt_lt (List.mem_of_mem_filter hb)

/-- The type derives from the other one through public bases. -/
abbrev DerivesFrom (t b : τ) : Prop := R.publicBases.Reaches t b

/-- The hooks of a type and its public bases, in the order in which they are to run after
    the construction. -/
structure InHookOrder (k : HookKind) (t : τ) (hooks : List μ) : Prop where
  /-- Every annotated method of the hierarchy is there, and nothing else. -/
  mem_iff : ∀ m, m ∈ hooks ↔
    R.IsHook k m ∧ m ∈ R.membersOf (R.parentOf m) ∧
      (R.parentOf m = t ∨ R.DerivesFrom t (R.parentOf m))
  nodup : hooks.Nodup
  bases_first : ∀ m ∈ hooks, ∀ m' ∈ hooks, R.DerivesFrom (R.parentOf m') (R.parentOf m) →
    Precedes hooks m m'
  own_last : ∀ m ∈ hooks, ∀ m' ∈ hooks, R.parentOf m ≠ t → R.parentOf m' = t →
    Precedes hooks m m'
  definition_order : ∀ u, ∀ m ∈ hooks, ∀ m' ∈ hooks, Precedes (R.membersOf u) m m' →
    Precedes hooks m m'

variable {R}

/-! ## The members of a type -/

instance (k : HookKind) (m : μ) : Decidable (R.IsHook k m) := by
  unfold IsHook
  infer_instance

/-- The hooks of a type, in the order of their definition. -/
def hooksOf (R : Reflection τ μ) (k : HookKind) (t : τ) : List μ :=
  (R.membersOf t).filter (R.IsHook k)

/-- A public base of a type. -/
def IsPublicBase (R : Reflection τ μ) (b : τ) : Prop :=
  ∃ t, ∃ base ∈ R.basesOf t, base.isPublic ∧ base.type = b

theorem isPublicBase_of_derivesFrom {t b : τ} (h : R.DerivesFrom t b) : R.IsPublicBase b := by
  obtain ⟨u, -, hb⟩ := Relation.TransGen.tail'_iff.mp h
  obtain ⟨base, hbase, rfl⟩ := List.mem_map.mp hb
  obtain ⟨hmem, hpublic⟩ := List.mem_filter.mp hbase
  exact ⟨u, base, hmem, hpublic, rfl⟩

/-- What the scan of a base collects is no constructor. -/
theorem isHook_iff {k : HookKind} {b : τ} {m : μ} (hb : R.IsPublicBase b) (hm : m ∈ R.membersOf b) :
    R.IsHook k m ↔
      R.isType m = false ∧ R.isSpecialMemberFunction m = false ∧
        k.annotation ∈ R.annotationsOf m := by
  refine ⟨fun h => h.2, fun h => ⟨?_, h⟩⟩
  by_contra hctor
  obtain ⟨t, base, hbase, hpublic, rfl⟩ := hb
  obtain ⟨n, hn⟩ := R.constructor_annotations hbase hpublic hm ((Bool.not_eq_false _).mp hctor)
    h.2.1 _ h.2.2
  cases k <;> cases hn

theorem memberHasAnnotationOfType_iff {m : μ} {a : Annotation} :
    R.memberHasAnnotationOfType m a = true ↔ a ∈ R.annotationsOf m := by
  simp [memberHasAnnotationOfType]

/-- The scan of a member collects it if it is a hook. -/
theorem hooks_scanMember (k : HookKind) {t : τ} {includeConstructors : Bool}
    (ht : includeConstructors = false → R.IsPublicBase t) (s : MemberScan μ) {m : μ}
    (hm : m ∈ R.membersOf t) :
    (R.scanMember includeConstructors s m).hooks k =
      if R.IsHook k m then s.hooks k ++ [m] else s.hooks k := by
  rw [scanMember]
  split
  · rename_i hctor
    rw [if_neg fun h : R.IsHook k m => by simp [h.1] at hctor]
    split <;> cases k <;> rfl
  · rename_i hctor
    -- A constructor of the type itself has gone the other way.
    have hiff : R.IsHook k m ↔ R.isType m = false ∧ R.isSpecialMemberFunction m = false ∧
        k.annotation ∈ R.annotationsOf m := by
      cases includeConstructors with
      | false => exact isHook_iff (ht rfl) hm
      | true =>
        have hnot : R.isConstructor m = false := by simpa using hctor
        exact ⟨fun h => h.2, fun h => ⟨hnot, h⟩⟩
    split
    · rename_i hmember
      simp only [Bool.and_eq_true, Bool.not_eq_true'] at hmember
      have hannotated : R.IsHook k m ↔ k.annotation ∈ R.annotationsOf m := by
        rw [hiff]
        simp only [hmember, true_and]
      cases k <;>
        simp only [MemberScan.hooks, memberHasAnnotationOfType_iff, HookKind.annotation, hannotated]
    · rename_i hmember
      rw [if_neg fun h : R.IsHook k m => by simp [h.2.1, h.2.2.1] at hmember]

/-- The scan of a type collects its hooks. -/
theorem hooks_scanMembersOfType (k : HookKind) {t : τ} {includeConstructors : Bool}
    (ht : includeConstructors = false → R.IsPublicBase t) (s : MemberScan μ) :
    (R.scanMembersOfType t includeConstructors s).hooks k = s.hooks k ++ R.hooksOf k t := by
  have hall : ∀ ms ⊆ R.membersOf t, ∀ s : MemberScan μ,
      (ms.foldl (R.scanMember includeConstructors) s).hooks k =
        s.hooks k ++ ms.filter (R.IsHook k) := by
    intro ms
    induction ms with
    | nil => exact fun _ s => (List.append_nil _).symm
    | cons m ms ih =>
      intro hms s
      obtain ⟨hm, hms⟩ := List.cons_subset.mp hms
      rw [List.foldl_cons, ih hms, hooks_scanMember k ht s hm, List.filter_cons]
      simp only [decide_eq_true_eq]
      split
      · rw [List.append_assoc, List.singleton_append]
      · rfl
  exact hall _ (List.Subset.refl _) s

/-- The hooks of the bases that a list of scans collects. -/
theorem hooks_foldl (k : HookKind) {ts : List τ} (hts : ∀ b ∈ ts, R.IsPublicBase b)
    (s : MemberScan μ) :
    (ts.foldl (fun s b => R.scanMembersOfType b false s) s).hooks k =
      s.hooks k ++ ts.flatMap (R.hooksOf k) := by
  induction ts generalizing s with
  | nil => exact (List.append_nil _).symm
  | cons t ts ih =>
    rw [List.foldl_cons, ih fun b hb => hts b (List.mem_cons_of_mem _ hb),
      hooks_scanMembersOfType k fun _ => hts t List.mem_cons_self, List.flatMap_cons,
      List.append_assoc]

theorem mem_hooksOf {k : HookKind} {t : τ} {m : μ} :
    m ∈ R.hooksOf k t ↔ R.IsHook k m ∧ m ∈ R.membersOf (R.parentOf m) ∧ R.parentOf m = t := by
  rw [hooksOf, List.mem_filter, decide_eq_true_eq]
  constructor
  · rintro ⟨hm, hk⟩
    obtain rfl := R.parentOf_eq hm
    exact ⟨hk, hm, rfl⟩
  · rintro ⟨hk, hm, rfl⟩
    exact ⟨hm, hk⟩

/-! ## The scan of the bases -/

section

variable [DecidableEq τ]

/-- The scan of the bases is the walk of the graph of the public bases. -/
theorem scanBaseHooks_eq_walk (t : τ) (s : List τ × MemberScan μ) :
    R.scanBaseHooks t s =
      R.publicBases.walk (fun s b => R.scanMembersOfType b false s) t s := by
  have hall (bs : List (BaseRelation τ)) (hbs : ∀ b ∈ bs, b ∈ R.basesOf t)
      (s : List τ × MemberScan μ) :
      bs.foldl (fun s base =>
          if base.isPublic then
            if base.type ∈ s.1 then s else
              let s' := R.scanBaseHooks base.type (s.1 ++ [base.type], s.2)
              (s'.1, R.scanMembersOfType base.type false s'.2)
          else s) s =
        ((bs.filter (·.isPublic)).map (·.type)).foldl (fun s b =>
          if b ∈ s.1 then s else
            let s' := R.publicBases.walk (fun s b => R.scanMembersOfType b false s) b
              (s.1 ++ [b], s.2)
            (s'.1, R.scanMembersOfType b false s'.2)) s := by
    -- The bases that are not public fall away on both sides.
    induction bs generalizing s with
    | nil => rfl
    | cons base bs ih =>
      have hbase := hbs base List.mem_cons_self
      rw [List.foldl_cons, ih fun b hb => hbs b (List.mem_cons_of_mem _ hb), List.filter_cons]
      split
      · rw [List.map_cons, List.foldl_cons, scanBaseHooks_eq_walk base.type]
      · rfl
  rw [scanBaseHooks, Dag.walk]
  exact hall _ (fun _ hb => hb) s
termination_by R.definedAt t
decreasing_by exact R.definedAt_lt hbase

/-- The hooks of a type are those of its public bases in post-order, and its own. -/
theorem scanMembers_hooks (k : HookKind) (t : τ) :
    (R.scanMembers t).hooks k =
      (R.publicBases.postOrder t).flatMap (R.hooksOf k) ++ R.hooksOf k t := by
  have hwalk := Dag.walk_foldl (G := R.publicBases)
    (fun s b => R.scanMembersOfType b false s) t [] [] ({} : MemberScan μ)
  rw [scanMembers, hooks_scanMembersOfType k fun h => absurd h.symm Bool.false_ne_true,
    scanBaseHooks_eq_walk]
  rw [show ([], {}) = (([] : List τ), [].foldl (fun s b => R.scanMembersOfType b false s)
    ({} : MemberScan μ)) from rfl, hwalk]
  simp only
  have hbases : ∀ b ∈ R.publicBases.postOrder t, R.IsPublicBase b :=
    fun b hb => isPublicBase_of_derivesFrom (Dag.mem_postOrder_iff.1 hb)
  rw [← Dag.postOrder, hooks_foldl k hbases]
  cases k <;> rfl

theorem mem_scanMembers_hooks {k : HookKind} {t : τ} {m : μ} :
    m ∈ (R.scanMembers t).hooks k ↔ R.IsHook k m ∧ m ∈ R.membersOf (R.parentOf m) ∧
      (R.parentOf m = t ∨ R.DerivesFrom t (R.parentOf m)) := by
  simp only [scanMembers_hooks, List.mem_append, List.mem_flatMap, Dag.mem_postOrder_iff,
    mem_hooksOf]
  constructor
  · rintro (⟨b, hb, hk, hm, rfl⟩ | ⟨hk, hm, ht⟩)
    · exact ⟨hk, hm, .inr hb⟩
    · exact ⟨hk, hm, .inl ht⟩
  · rintro ⟨hk, hm, ht | hb⟩
    · exact .inr ⟨hk, hm, ht⟩
    · exact .inl ⟨_, hb, hk, hm, rfl⟩

/-- No hook comes before one of a base of its type. -/
theorem pairwise_scanMembers_hooks (k : HookKind) (t : τ) :
    ((R.scanMembers t).hooks k).Pairwise
      fun m m' => ¬ R.DerivesFrom (R.parentOf m) (R.parentOf m') := by
  -- The hooks of one type are in either order.
  have hself (u : τ) : (R.hooksOf k u).Pairwise
      fun m m' => ¬ R.DerivesFrom (R.parentOf m) (R.parentOf m') := by
    refine List.Pairwise.imp_of_mem (fun {m m'} hm hm' _ hreach => ?_)
      ((R.nodup_membersOf u).filter _)
    rw [(mem_hooksOf.1 hm).2.2, (mem_hooksOf.1 hm').2.2] at hreach
    exact Nat.lt_irrefl _ hreach.rank_lt
  rw [scanMembers_hooks, List.pairwise_append, List.pairwise_flatMap]
  refine ⟨⟨fun u _ => hself u, ?_⟩, hself t, ?_⟩
  · refine (Dag.pairwise_postOrder t).imp fun {u u'} hreach m hm m' hm' => ?_
    rwa [(mem_hooksOf.1 hm).2.2, (mem_hooksOf.1 hm').2.2]
  · intro m hm m' hm' hreach
    obtain ⟨u, hu, hm⟩ := List.mem_flatMap.1 hm
    rw [(mem_hooksOf.1 hm).2.2, (mem_hooksOf.1 hm').2.2] at hreach
    exact Nat.lt_asymm (Dag.mem_postOrder_iff.1 hu).rank_lt hreach.rank_lt

theorem nodup_scanMembers_hooks (k : HookKind) (t : τ) : ((R.scanMembers t).hooks k).Nodup := by
  have hself (u : τ) : (R.hooksOf k u).Nodup := (R.nodup_membersOf u).filter _
  rw [scanMembers_hooks, List.nodup_append, List.nodup_flatMap]
  refine ⟨⟨fun u _ => hself u, ?_⟩, hself t, ?_⟩
  · refine (Dag.nodup_postOrder t).imp fun {u u'} hne m hm hm' => ?_
    exact hne ((mem_hooksOf.1 hm).2.2.symm.trans (mem_hooksOf.1 hm').2.2)
  · intro m hm m' hm'
    rintro rfl
    obtain ⟨u, hu, hm⟩ := List.mem_flatMap.1 hm
    have heq := (mem_hooksOf.1 hm).2.2.symm.trans (mem_hooksOf.1 hm').2.2
    exact Nat.lt_irrefl _ (heq ▸ (Dag.mem_postOrder_iff.1 hu).rank_lt)

/-- The hooks of a type of the hierarchy stand in its order. -/
theorem hooksOf_sublist {k : HookKind} {t u : τ} (h : u = t ∨ R.DerivesFrom t u) :
    (R.hooksOf k u).Sublist ((R.scanMembers t).hooks k) := by
  rw [scanMembers_hooks]
  rcases h with rfl | h
  · exact List.sublist_append_right _ _
  · refine List.Sublist.trans ?_ (List.sublist_append_left _ _)
    rw [List.flatMap_def]
    exact List.sublist_flatten_of_mem (List.mem_map_of_mem (Dag.mem_postOrder_iff.2 h))

/-- The collected hooks are in order. -/
theorem inHookOrder_scanMembers (k : HookKind) (t : τ) :
    R.InHookOrder k t ((R.scanMembers t).hooks k) := by
  have bases_first : ∀ m ∈ (R.scanMembers t).hooks k, ∀ m' ∈ (R.scanMembers t).hooks k,
      R.DerivesFrom (R.parentOf m') (R.parentOf m) →
        Precedes ((R.scanMembers t).hooks k) m m' := by
    intro m hm m' hm' hreach
    have hne : m ≠ m' := by
      rintro rfl
      exact Nat.lt_irrefl _ hreach.rank_lt
    refine (precedes_total hm hm' hne).resolve_right fun hlater => ?_
    exact List.pairwise_iff_forall_sublist.1 (pairwise_scanMembers_hooks k t) hlater hreach
  refine ⟨fun m => mem_scanMembers_hooks, nodup_scanMembers_hooks k t, bases_first, ?_, ?_⟩
  · intro m hm m' hm' hne heq
    refine bases_first m hm m' hm' ?_
    rw [heq]
    exact (mem_scanMembers_hooks.1 hm).2.2.resolve_left hne
  · intro u m hm m' hm' hdef
    obtain ⟨hk, hparent, hreach⟩ := mem_scanMembers_hooks.1 hm
    obtain ⟨hk', -, -⟩ := mem_scanMembers_hooks.1 hm'
    obtain rfl := R.parentOf_eq hdef.left_mem
    have hmem (x : μ) (hx : x ∈ R.membersOf (R.parentOf m)) (hxk : R.IsHook k x) :
        x ∈ R.hooksOf k (R.parentOf m) := List.mem_filter.2 ⟨hx, decide_eq_true hxk⟩
    refine Precedes.mono ?_ (hooksOf_sublist hreach)
    exact hdef.restrict (R.nodup_membersOf _) List.filter_sublist (hmem m hdef.left_mem hk)
      (hmem m' hdef.right_mem hk')

/-! ## The thunks -/

theorem reverseInfos_eq (infos : List μ) (i : ℕ) (hi : i ≤ infos.length) (result : List μ) :
    reverseInfos infos i result = result ++ (infos.take i).reverse := by
  induction i generalizing result with
  | zero => simp [reverseInfos]
  | succ i ih =>
    have hlt : i < infos.length := hi
    rw [reverseInfos, ih (Nat.le_of_lt hlt), List.getElem?_eq_getElem hlt,
      ← List.take_append_getElem hlt, List.reverse_append, List.append_assoc]
    rfl

/-- The scan collects the hooks of each kind in order, and the `preDestroy` hooks run in the
    reverse one. -/
theorem scanMembers_inHookOrder (R : Reflection τ μ) (t : τ) :
    R.InHookOrder .postConstruct t (R.scanMembers t).postConstruct ∧
      R.InHookOrder .preDestroy t (R.scanMembers t).preDestroy ∧
      R.preDestroyThunk t = (R.scanMembers t).preDestroy.reverse := by
  refine ⟨inHookOrder_scanMembers .postConstruct t, inHookOrder_scanMembers .preDestroy t, ?_⟩
  rw [preDestroyThunk, reverseInfos_eq _ _ (Nat.le_refl _), List.take_length, List.nil_append]

end

end Reflection

/-! ## Example -/

/-- The classes of a virtual diamond, with a private base of the last one. -/
inductive Vehicle
  | engine
  | boat
  | car
  | amphibian
  | secret
  deriving DecidableEq, Repr

/-- Their members, by numbers. -/
structure Member where
  parent : Vehicle
  number : ℕ
  deriving DecidableEq, Repr

/-- Each class has a method that is a hook of both kinds, the engine two, and the last class also a
    constructor with the annotation. -/
def amphibious : Reflection Vehicle Member where
  basesOf
    | .boat | .car => [⟨.engine, true⟩]
    | .amphibian => [⟨.boat, true⟩, ⟨.secret, false⟩, ⟨.car, true⟩]
    | _ => []
  membersOf
    | .amphibian => [⟨.amphibian, 0⟩, ⟨.amphibian, 1⟩]
    | .engine => [⟨.engine, 1⟩, ⟨.engine, 2⟩]
    | v => [⟨v, 1⟩]
  parentOf := Member.parent
  parametersOf _ := []
  isConstructor m := m.number = 0
  isType _ := false
  isSpecialMemberFunction _ := false
  annotationsOf m := if m.number = 2 then [.postConstruct] else [.postConstruct, .preDestroy]
  isBeanType _ := false
  definedAt
    | .engine | .secret => 0
    | .boat | .car => 1
    | .amphibian => 2
  definedAt_lt {t b} h := by
    cases t <;> simp only [List.mem_cons, List.not_mem_nil, or_false] at h
    · subst h
      decide
    · subst h
      decide
    · rcases h with rfl | rfl | rfl <;> decide
  nodup_membersOf t := by cases t <;> decide
  parentOf_eq {t m} h := by
    cases t <;> simp only [List.mem_cons, List.not_mem_nil, or_false] at h
    · rcases h with rfl | rfl <;> rfl
    · exact h ▸ rfl
    · exact h ▸ rfl
    · rcases h with rfl | rfl <;> rfl
    · exact h ▸ rfl
  constructor_annotations {t b m} hb _ hm hctor := by
    cases t <;> simp_all <;> grind

/-- The hooks of the shared base come first and once, and those of the private base do not come. -/
theorem amphibious_inHookOrder :
    (amphibious.scanMembers .amphibian).postConstruct =
        [⟨.engine, 1⟩, ⟨.engine, 2⟩, ⟨.boat, 1⟩, ⟨.car, 1⟩, ⟨.amphibian, 1⟩] ∧
      amphibious.preDestroyThunk .amphibian =
        [⟨.amphibian, 1⟩, ⟨.car, 1⟩, ⟨.boat, 1⟩, ⟨.engine, 1⟩] ∧
      amphibious.InHookOrder .postConstruct .amphibian
        (amphibious.scanMembers .amphibian).postConstruct ∧
      amphibious.InHookOrder .preDestroy .amphibian
        (amphibious.scanMembers .amphibian).preDestroy := by
  obtain ⟨hpost, hpre, -⟩ := amphibious.scanMembers_inHookOrder .amphibian
  exact ⟨by decide +kernel, by decide +kernel, hpost, hpre⟩

end Ctorium.HookScan
