import Ctorium.Registry.Bystanders
import Ctorium.Registry.InjectionPoints
import Ctorium.Registry.Numbering
import Ctorium.Registry.Producers

/-!
# Starts that fail

A start that fails leaves behind what the merge has done by then: interned names and
types, descriptors, candidates. A later start merges all contributions once more. This
module compares a context after a failed first start with one where that start has not
been attempted, when both go on with the same calls.

* `Registry.start_knows`: a start interns the names of the contributions up to the first
  one that diverges, whatever is in the tables already;
* `Doomed.exec`: if the contributions diverge, a pending singleton collides, or two
  products of one factory collide, every later start fails as well;
* `failed_start_atomic`: then no later call tells the two contexts apart;
* `failed_start_remembered`: a start that fails for another reason is not forgotten. Its
  descriptors are candidates of the next start, next to those that this one makes.
-/

namespace Ctorium

open Attempt

/-! ## The names that a start interns -/

namespace NameInterning

theorem Valid.holds {ni : NameInterning} (h : ni.Valid) : ni.Holds ni.idToName := by
  refine ⟨h, fun beanName => ⟨.inr, fun hname => hname.elim (fun heq => ?_) id⟩⟩
  have hsize : kUnnamed < ni.idToName.length := NameInterning.kUnnamed_lt h
  rw [heq, ← NameInterning.nameOf_kUnnamed h, nameOf, List.getD_eq_getElem _ _ hsize]
  exact List.getElem_mem hsize

/-- A name that is interned is known afterwards, and no other one becomes known. -/
theorem lookup_intern_ne_none {ni : NameInterning} (h : ni.Valid) (name beanName : String) :
    (ni.intern name).2.lookup beanName ≠ none ↔ ni.lookup beanName ≠ none ∨ beanName = name := by
  rw [ne_eq, (h.holds.intern name).lookup_eq_none_iff, ne_eq, h.holds.lookup_eq_none_iff, not_not,
    not_not, List.mem_append, List.mem_singleton, or_assoc]

end NameInterning

namespace Registry

variable {r r' : Registry} {s : StartState} {seen : List ContributedDescriptor}

/-- The name is interned. -/
def Knows (r : Registry) (name : String) : Prop := r.nameInterning.lookup name ≠ none

/-- The new contributions before the first one that diverges. -/
def accepted (seen : List ContributedDescriptor) :
    List ContributedDescriptor → List ContributedDescriptor
  | [] => []
  | cd :: cds =>
    match seen.find? fun first => first.identity == cd.identity with
    | none => cd :: accepted (seen ++ [cd]) cds
    | some first => if agreesWith first cd then accepted seen cds else []

theorem accepted_append (seen cds more : List ContributedDescriptor) :
    accepted seen cds <+: accepted seen (cds ++ more) := by
  induction cds generalizing seen with
  | nil => exact List.nil_prefix
  | cons cd cds ih =>
    rw [List.cons_append, accepted, accepted]
    cases seen.find? fun first => first.identity == cd.identity with
    | none => exact (List.prefix_cons_inj cd).mpr (ih _)
    | some first =>
      dsimp only
      split_ifs
      · exact ih seen
      · exact List.nil_prefix

/-- Phase 1 interns the names of the contributions that it accepts. -/
theorem forEach_mergeContribution_knows (cds : List ContributedDescriptor) (h : MergedFrom seen s)
    (hr : s.registry.Interned) (name : String) :
    (forEach mergeContribution cds s).state.registry.Knows name ↔
      s.registry.Knows name ∨ name ∈ (accepted seen cds).map ContributedDescriptor.beanName := by
  -- Along the contributions: a new one interns its name; one that repeats an earlier one interns
  -- nothing, or ends the merge.
  induction cds generalizing seen s with
  | nil => simp [forEach, accepted]
  | cons cd cds ih =>
    rw [forEach, accepted]
    cases hfind : seen.find? fun first => first.identity == cd.identity with
    | none =>
      have hmerged := h cd.identity
      rw [hfind] at hmerged
      have hstep : mergeContribution s cd = .ok (mergeNew s cd) := by
        simp [mergeContribution, hmerged]
      have hknows : (mergeNew s cd).registry.Knows name ↔
          s.registry.Knows name ∨ name = cd.beanName :=
        NameInterning.lookup_intern_ne_none hr.indexed.names cd.beanName name
      rw [hstep, andThen_of_ok rfl, ok_state, ih (h.mergeNew hr cd) (hr.mergeNew cd).1, hknows,
        or_assoc, List.map_cons, List.mem_cons]
    | some first =>
      obtain ⟨hstate, hagrees⟩ := mergeContribution_of_seen h hfind
      cases hfail : (mergeContribution s cd).failure with
      | none =>
        rw [andThen_of_ok hfail, hstate]
        simpa [hagrees.mp hfail] using ih h hr
      | some e =>
        have hdisagrees : agreesWith first cd = false := by
          rw [← Bool.not_eq_true, ← hagrees, hfail]
          rintro ⟨⟩
        rw [andThen_of_fail hfail, hstate]
        simp [hdisagrees]

/-- After phase 1, a start interns no names. -/
theorem mergeAndLink_nameInterning (s : StartState) :
    (mergeAndLink s).state.registry.nameInterning =
      (forEach mergeContribution s.registry.pending s).state.registry.nameInterning := by
  let P := fun t : StartState => t.registry.nameInterning =
    (forEach mergeContribution s.registry.pending s).state.registry.nameInterning
  have hmerge : P (mergeAll s).state := by
    unfold mergeAll
    cases hfail : (forEach mergeContribution s.registry.pending s).failure with
    | some e => rw [andThen_of_fail hfail]
    | none =>
      rw [andThen_of_ok hfail]
      refine forEach_invariant (P := P) (fun t pb _ ht => ?_) rfl
      simp only [mergePendingSingleton]
      split_ifs <;> exact ht
  exact andThen_invariant (P := P) hmerge fun t ht => (linkAll_entries t).2.2.trans ht

theorem start_knows (h : r.Interned) (hnot : r.started = false) (hid : r.beanContextDescId = none)
    (ctx : Addr) (name : String) : (r.start ctx).state.Knows name ↔
      r.Knows name ∨ name ∈ (accepted [] r.pending).map ContributedDescriptor.beanName := by
  have hlink := mergeAndLink_nameInterning { registry := r }
  have hnames : (r.start ctx).state.nameInterning =
      (forEach mergeContribution r.pending { registry := r }).state.registry.nameInterning := by
    rcases start_cases r ctx with ⟨hs, -⟩ | ⟨_, -, hsome, -⟩ | ⟨-, -, heq⟩
    · rw [hnot] at hs
      cases hs
    · rw [hid] at hsome
      cases hsome
    · rw [heq]
      cases hfail : (merge { registry := r } ctx).failure with
      | none =>
        exact (congrArg (fun t => t.registry.nameInterning) (merge_of_ok hfail).2.2.2).trans hlink
      | some e =>
        rcases merge_of_fail hfail with hstate | hstate <;>
          exact (congrArg (fun t => t.registry.nameInterning) hstate).trans hlink
  rw [Knows, hnames]
  exact forEach_mergeContribution_knows r.pending (mergedFrom_nil r) h name

/-! ## Larger tables -/

/-- In larger tables, the old entries come first. -/
theorem Extends.entries_prefix (h : Extends r r') (hr : r.Interned)
    (hds : r.descriptors <+: r'.descriptors) : r.entries <+: r'.entries := by
  obtain ⟨ds, hds⟩ := hds
  refine ⟨ds.map r'.entryOf, ?_⟩
  rw [Registry.entries, Registry.entries, ← hds, List.map_append]
  exact congrArg (· ++ _) (List.map_congr_left fun d hd => (h.entryOf hr hd).symm)

theorem Extends.pendingEntries_prefix (h : Extends r r') (hr : r.Interned)
    (hpbs : r.pendingRuntimeSingletons <+: r'.pendingRuntimeSingletons) :
    r.pendingEntries <+: r'.pendingEntries := by
  obtain ⟨pbs, hpbs⟩ := hpbs
  refine ⟨pbs.map r'.pendingEntry, ?_⟩
  rw [Registry.pendingEntries, Registry.pendingEntries, ← hpbs, List.map_append]
  refine congrArg (· ++ _) (List.map_congr_left fun pb hpb => ?_)
  rw [pendingEntry, pendingEntry, h.names _ (hr.pending pb hpb)]

/-! ## Starts that can never succeed -/

/-- Two of the contributions are products of one factory, with one type name and bean name. -/
def Clashing (r : Registry) : Prop :=
  ∃ cd ∈ newContributions [] r.pending, ∃ cd' ∈ newContributions [] r.pending,
    cd.identity ≠ cd'.identity ∧ cd'.exposedType.name = cd.exposedType.name ∧
      cd'.beanName = cd.beanName ∧ cd.origin = .factoryProduct ∧ cd'.origin = .factoryProduct ∧
      ∃ factory, cd.factoryMethodIdentity = some factory ∧ cd'.factoryMethodIdentity = some factory

/-- The contributions diverge, a pending singleton collides, or products collide. -/
def Hopeless (r : Registry) : Prop := ¬r.Mergeable ∨ r.Clashing

theorem Clashing.of_grown (h : r.Clashing) {cds : List ContributedDescriptor}
    (hpending : r'.pending = r.pending ++ cds) : r'.Clashing := by
  have hsub := (newContributions_append [] r.pending cds).subset
  obtain ⟨cd, hcd, cd', hcd', hclash⟩ := h
  rw [← hpending] at hsub
  exact ⟨cd, hsub hcd, cd', hsub hcd', hclash⟩

/-- A first start that fails has kept its contributions, and is a first start again. -/
theorem frame_of_start_fails (hnot : r.started = false) (hid : r.beanContextDescId = none)
    {ctx : Addr} (hfail : (r.start ctx).failure ≠ none) : Frame r (r.start ctx).state := by
  rcases start_cases r ctx with ⟨hs, -⟩ | ⟨_, -, hsome, -⟩ | ⟨-, -, heq⟩
  · rw [hnot] at hs
    cases hs
  · rw [hid] at hsome
    cases hsome
  · rw [heq] at hfail ⊢
    obtain ⟨e, he⟩ := Option.ne_none_iff_exists'.mp hfail
    exact (Frame.refl r).merge_of_fail he

theorem Hopeless.start (h : r.Hopeless) (hr : r.Interned) (hnot : r.started = false)
    (hid : r.beanContextDescId = none) (ctx : Addr) :
    (∃ text, (r.start ctx).failure = some (.configurationError text)) ∧
      (r.start ctx).state.Hopeless := by
  have hfailure : (r.start ctx).failure = (merge { registry := r } ctx).failure := by
    rw [Registry.start, hnot, hid]
    rfl
  have hfails : (r.start ctx).failure ≠ none := by
    rcases h with hblocked
      | ⟨cd, hcd, cd', hcd', hne, htype, hname, hproduct, hproduct', _, hf, hf'⟩
    · exact (start_of_not_mergeable hr hnot hid hblocked ctx).1
    · rw [hfailure]
      exact merge_of_products hr hcd hcd' hne htype hname hproduct hproduct' hf hf' ctx
  refine ⟨?_, h.imp (fun hblocked => (start_of_not_mergeable hr hnot hid hblocked ctx).2)
    fun hclash => ?_⟩
  · obtain ⟨e, he⟩ := Option.ne_none_iff_exists'.mp hfails
    obtain ⟨text, rfl⟩ := merge_failure (hfailure.symm.trans he)
    exact ⟨text, he⟩
  · exact hclash.of_grown
      ((frame_of_start_fails hnot hid hfails).pending.trans (List.append_nil _).symm)

end Registry

namespace BeanContext

open Registry (accepted)

variable {b b' : BeanContext}

/-! ## Calls before the first start -/

/-- The contributions that a call discovers. -/
def Call.contributions : Call → List ContributedDescriptor
  | .discover cds => cds
  | _ => []

/-- The name that a call interns before the start. -/
def Call.names : Call → List String
  | .bindSingleton _ name _ _ => [name]
  | .bindSession _ type name _ _ => if type.name = Registry.beanContextType.name then [] else [name]
  | _ => []

/-- What a call other than a start does to the registry of a context that has not been
    started. -/
structure Collects (call : Call) (r r' : Registry) : Prop where
  started : r'.started = r.started
  first : r'.beanContextDescId = r.beanContextDescId
  pending : r'.pending = r.pending ++ call.contributions
  larger : Registry.Extends r r'
  descriptors : r.descriptors <+: r'.descriptors
  singletons : r.pendingRuntimeSingletons <+: r'.pendingRuntimeSingletons
  knows : ∀ name, r'.Knows name ↔ r.Knows name ∨ name ∈ call.names

theorem Collects.of_eq {call : Call} {r r' : Registry} (hcore : r' = r)
    (hpending : call.contributions = []) (hnames : call.names = []) : Collects call r r' := by
  subst hcore
  exact ⟨rfl, rfl, by simp [hpending], .refl _, List.prefix_rfl, List.prefix_rfl,
    fun name => by simp [hnames]⟩

theorem collects_bindSingleton (hi : b.core.Interned) (hnot : b.core.started = false)
    (type : CppType) (name : String) (priority : ℤ) (object : Addr) :
    Collects (.bindSingleton type name priority object) b.core
      (b.bindSingleton type name priority object).state.core := by
  have hext := hi.extends_names name
  have hknows : ∀ beanName, (b.core.withNames (b.core.nameInterning.intern name).2).Knows beanName ↔
      b.core.Knows beanName ∨ beanName ∈ [name] := fun beanName => by
    rw [List.mem_singleton]
    exact NameInterning.lookup_intern_ne_none hi.indexed.names name beanName
  have hpending := (List.append_nil b.core.pending).symm
  simp only [bindSingleton, Registry.bindSingleton, Registry.bindSingletonPending]
  split_ifs with hcontext hstarted
  · exact ⟨rfl, rfl, hpending, hext, List.prefix_rfl, List.prefix_rfl, hknows⟩
  · exact absurd (hnot.symm.trans hstarted) Bool.false_ne_true
  · exact ⟨rfl, rfl, hpending, hext, List.prefix_rfl, List.prefix_rfl, hknows⟩
  · exact ⟨rfl, rfl, hpending, ⟨hext.types, hext.names, hext.typesSize, hext.namesSize⟩,
      List.prefix_rfl, List.prefix_append _ _, hknows⟩

theorem collects_bindSession (hi : b.core.Interned) (hnot : b.core.started = false)
    (scope : ScopeId) (type : CppType) (name : String) (priority : ℤ) (object : Addr) :
    Collects (.bindSession scope type name priority object) b.core
      (b.bindSession scope type name priority object).state.core := by
  have hext : Registry.Extends b.core (b.core.internSession type name) := by
    rw [Registry.internSession, Registry.sessionType, hnot]
    exact (hi.extends_names name).trans ((hi.withNames name).extends_types type)
  have hpending := (List.append_nil b.core.pending).symm
  simp only [bindSession]
  split_ifs with htype hexists
  · exact .of_eq rfl rfl (if_pos htype)
  all_goals
    have hknows : ∀ beanName, (b.core.internSession type name).Knows beanName ↔
        b.core.Knows beanName ∨
          beanName ∈ (Call.bindSession scope type name priority object).names := fun beanName => by
      rw [Call.names, if_neg htype, List.mem_singleton]
      exact NameInterning.lookup_intern_ne_none hi.indexed.names name beanName
  · exact ⟨rfl, rfl, hpending, hext, List.prefix_rfl, List.prefix_rfl, hknows⟩
  · -- The session bean gets a new descriptor.
    have hnew : ((b.core.internSession type name).sessionDescriptor (b.core.sessionType type).1
        (b.core.nameInterning.intern name).1 priority).2 =
        (b.core.internSession type name).appendCandidate ((b.core.internSession type
          name).boundDescriptor (b.core.sessionType type).1 (b.core.nameInterning.intern name).1
            priority .session) := by
      have hnot' : (b.core.internSession type name).started = false := hnot
      simp [Registry.sessionDescriptor, Registry.reusableSession, Registry.appendSession, hnot']
    rw [placeSession_core]
    change Collects _ b.core ((b.core.internSession type name).sessionDescriptor _ _ _).2
    rw [hnew]
    exact ⟨rfl, rfl, hpending, ⟨hext.types, hext.names, hext.typesSize, hext.namesSize⟩,
      List.prefix_append _ _, List.prefix_rfl, hknows⟩

/-- Every call other than a start only collects. -/
theorem exec_collects (hi : b.core.Interned) (hnot : b.core.started = false) {call : Call}
    (hcall : call ≠ .start) : Collects call b.core (b.exec call).state.core := by
  cases call with
  | discover cds =>
    simp only [exec, discover, Registry.submitContribution]
    split_ifs with hstarted
    · exact absurd (hnot.symm.trans hstarted) Bool.false_ne_true
    · exact ⟨rfl, rfl, rfl, ⟨fun _ _ => rfl, fun _ _ => rfl, le_rfl, le_rfl⟩, List.prefix_rfl,
        List.prefix_rfl, fun name => (or_iff_left List.not_mem_nil).symm⟩
  | bindSingleton type name priority object => exact collects_bindSingleton hi hnot _ _ _ _
  | bindSession scope type name priority object => exact collects_bindSession hi hnot _ _ _ _ _
  | defaultNamed scope type name =>
    refine .of_eq ?_ rfl rfl
    simp [exec, defaultNamed, hnot]
  | clearDefaultNamed scope type =>
    refine .of_eq ?_ rfl rfl
    simp [exec, clearDefaultNamed, hnot]
  | start => exact absurd rfl hcall
  | startScope scope => exact .of_eq (startScope_core scope) rfl rfl
  | stopScope scope => exact .of_eq (stopScope_core scope) rfl rfl
  | restartScope scope => exact .of_eq (restartScope_core scope) rfl rfl

/-! ## Doomed contexts -/

/-- A context that has not been started, and cannot be. -/
structure Doomed (b : BeanContext) : Prop where
  interned : b.core.Interned
  unstarted : b.core.started = false
  first : b.core.beanContextDescId = none
  hopeless : b.core.Hopeless

/-- A start fails, interns the names of the contributions that it accepts, and keeps the
    contributions. -/
theorem Doomed.start (h : b.Doomed) :
    (∃ text, b.start.failure = some (.configurationError text)) ∧ b.start.state.Doomed ∧
      b.start.state.core.pending = b.core.pending ∧ ∀ name, b.start.state.core.Knows name ↔
        b.core.Knows name ∨
          name ∈ (accepted [] b.core.pending).map ContributedDescriptor.beanName := by
  obtain ⟨⟨text, hfail⟩, hhopeless⟩ := h.hopeless.start h.interned h.unstarted h.first b.self
  have hframe : Registry.Frame b.core (b.core.start b.self).state :=
    Registry.frame_of_start_fails h.unstarted h.first (by rw [hfail]; exact Option.some_ne_none _)
  exact ⟨⟨text, hfail⟩, ⟨exec_interned h.interned .start, hframe.started.trans h.unstarted,
    hframe.beanContextDescId.trans h.first, hhopeless⟩, hframe.pending,
    Registry.start_knows h.interned h.unstarted h.first b.self⟩

/-- A doomed context stays doomed. -/
theorem Doomed.exec (h : b.Doomed) (call : Call) : (b.exec call).state.Doomed := by
  by_cases hstart : call = .start
  · rw [hstart]
    exact h.start.2.1
  · have hc := exec_collects h.interned h.unstarted hstart
    refine ⟨exec_interned h.interned call, hc.started.trans h.unstarted, hc.first.trans h.first,
      h.hopeless.imp (fun hblocked hmergeable => hblocked ?_) (·.of_grown hc.pending)⟩
    obtain ⟨es, hes⟩ := hc.larger.pendingEntries_prefix h.interned hc.singletons
    exact hmergeable.of_grown hc.pending hes.symm
      (hc.larger.entries_prefix h.interned hc.descriptors).subset

/-! ## Two contexts -/

/-- Two doomed contexts with the same contributions, where the second one may know names that a
    start of the first one would intern. -/
structure Twins (b b' : BeanContext) : Prop where
  left : b.Doomed
  right : b'.Doomed
  pending : b'.core.pending = b.core.pending
  knows : ∀ name, b.core.Knows name → b'.core.Knows name
  known : ∀ name, b'.core.Knows name → b.core.Knows name ∨
    name ∈ (accepted [] b.core.pending).map ContributedDescriptor.beanName

theorem Doomed.twins (h : b.Doomed) : Twins b b.start.state := by
  obtain ⟨-, hright, hpending, hknows⟩ := h.start
  exact ⟨h, hright, hpending, fun name hname => (hknows name).mpr (.inl hname),
    fun name => (hknows name).mp⟩

/-- After a start of both, they know the same names. -/
theorem Twins.knows_start (h : Twins b b') (name : String) :
    b'.start.state.core.Knows name ↔ b.start.state.core.Knows name := by
  obtain ⟨-, -, -, hleft⟩ := h.left.start
  obtain ⟨-, -, -, hright⟩ := h.right.start
  rw [hleft, hright, h.pending]
  constructor
  · rintro (hname | hname)
    · exact h.known name hname
    · exact .inr hname
  · exact fun hname => hname.imp_left (h.knows name)

theorem Twins.start (h : Twins b b') : Twins b.start.state b'.start.state := by
  obtain ⟨-, hleft, hpending, -⟩ := h.left.start
  obtain ⟨-, hright, hpending', -⟩ := h.right.start
  exact ⟨hleft, hright, by rw [hpending, hpending', h.pending], fun name =>
    (h.knows_start name).mpr,
    fun name hname => .inl ((h.knows_start name).mp hname)⟩

theorem Twins.exec (h : Twins b b') (call : Call) :
    Twins (b.exec call).state (b'.exec call).state := by
  by_cases hstart : call = .start
  · rw [hstart]
    exact h.start
  · have hc := exec_collects h.left.interned h.left.unstarted hstart
    have hc' := exec_collects h.right.interned h.right.unstarted hstart
    refine ⟨h.left.exec call, h.right.exec call, by rw [hc.pending, hc'.pending, h.pending],
      fun name hname => ?_, fun name hname => ?_⟩
    · exact (hc'.knows name).mpr (((hc.knows name).mp hname).imp_left (h.knows name))
    · rw [hc.knows, hc.pending]
      rcases (hc'.knows name).mp hname with hname | hname
      · refine (h.known name hname).imp .inl fun haccepted => ?_
        exact ((Registry.accepted_append [] _ _).map _).subset haccepted
      · exact .inl (.inr hname)

theorem Twins.execAll (h : Twins b b') (calls : List Call) :
    Twins (b.execAll calls) (b'.execAll calls) := by
  induction calls generalizing b b' with
  | nil => exact h
  | cons call calls ih => exact ih (h.exec call)

/-! ## Later behaviour -/

/-- What a resolve selects, by its entry, or how it fails. -/
def resolved (b : BeanContext) (scope : Option ScopeId) (type : CppType) (name : Option String) :
    Except Failure (Option Entry) :=
  (b.resolve scope type name).map fun id => b.core.descriptors[id]?.map b.core.entryOf

/-- A start has the same outcome in both contexts, and so has every resolve after it. -/
structure SameOutcome (b b' : BeanContext) : Prop where
  starts : b'.start.failure = none ↔ b.start.failure = none
  resolves : ∀ scope type name,
    b'.start.state.resolved scope type name = b.start.state.resolved scope type name

/-- A start of the context is atomic: after any further calls, a start has the same outcome as if
    the first one had not been attempted. -/
def StartsAtomically (b : BeanContext) : Prop :=
  ∀ calls, SameOutcome (b.execAll calls) (b.start.state.execAll calls)

/-- A doomed context refuses to resolve. -/
theorem Doomed.resolved (h : b.Doomed) (scope : Option ScopeId) (type : CppType)
    (name : Option String) : b.resolved scope type name = .error (match name with
      | none => Wiring.notStarted
      | some name =>
        if b.core.nameInterning.lookup name = none then unknownQualifier name
        else Wiring.notStarted) := by
  have htarget : ∀ nameId, Wiring.resolveTarget b scope type nameId = .error Wiring.notStarted :=
    fun nameId => by simp [Wiring.resolveTarget, h.unstarted]
  cases name with
  | none =>
    simp only [BeanContext.resolved, resolve, htarget]
    rfl
  | some name =>
    simp only [BeanContext.resolved, resolve]
    cases hname : b.core.nameInterning.lookup name with
    | none => rfl
    | some nameId =>
      simp only [htarget]
      rfl

theorem Twins.sameOutcome (h : Twins b b') : SameOutcome b b' := by
  obtain ⟨⟨_, hleft⟩, hdoomed, -, -⟩ := h.left.start
  obtain ⟨⟨_, hright⟩, hdoomed', -, -⟩ := h.right.start
  refine ⟨by rw [hleft, hright]; simp, fun scope type name => ?_⟩
  rw [hdoomed.resolved, hdoomed'.resolved]
  cases name with
  | none => rfl
  | some name =>
    have hknows : b'.start.state.core.nameInterning.lookup name = none ↔
        b.start.state.core.nameInterning.lookup name = none :=
      not_iff_not.mp (h.knows_start name)
    simp only [hknows]

/-- A start that fails in phases 1 and 1.5, or because two products of one factory collide, is
    atomic. -/
theorem failed_start_atomic (hb : b.Reachable) (hnot : b.core.started = false)
    (h : b.core.Hopeless) : b.start.failure ≠ none ∧ b.StartsAtomically := by
  have hdoomed : b.Doomed := ⟨hb.interned, hnot, hb.numbered.core.unmerged hnot, h⟩
  obtain ⟨⟨text, hfail⟩, -⟩ := hdoomed.start
  refine ⟨by rw [hfail]; exact Option.some_ne_none _, fun calls => ?_⟩
  exact (hdoomed.twins.execAll calls).sameOutcome

/-! ## Examples -/

open InjectionPoints (MemberScan document editorContext)

/-- The constructor of the editor takes the document, which is a session bean, without a scope. -/
def plainEditor : MemberScan where
  ctor := [{ type := document }]

/-- An editor is discovered, and another one is bound with its key. -/
def boundTwice : BeanContext :=
  execAll (editorContext {}) [.bindSingleton ⟨"Editor", 2⟩ "" 0 100]

theorem failed_start_atomic_collision :
    boundTwice.start.failure ≠ none ∧ boundTwice.StartsAtomically :=
  failed_start_atomic ⟨_, 0, [.discover _, .bindSingleton ⟨"Editor", 2⟩ "" 0 100], rfl⟩ (by decide)
    (.inl fun h => absurd h.fits (by decide))

/-- A start that fails because a session bean is injected without a scope is not forgotten. Once a
    document is bound that is not a session bean and has priority, a start succeeds, but the editor
    is ambiguous; without the failed start, it is found. -/
theorem failed_start_remembered : ¬ ∀ b : BeanContext, b.Reachable → b.core.started = false →
    b.start.failure ≠ none → b.StartsAtomically := by
  intro hatomic
  have hsame := hatomic (editorContext plainEditor) ⟨_, 0, [.discover _], rfl⟩
    (by decide) (by decide)
    [.bindSingleton document "" 1 100]
  have hresolves := hsame.resolves none ⟨"Editor", 2⟩ none
  revert hresolves
  decide

end BeanContext

end Ctorium
