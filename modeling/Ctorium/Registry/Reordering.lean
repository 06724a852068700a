import Ctorium.Registry.Bystanders
import Ctorium.Registry.Foreseen

/-!
# Configurations in another order

Before the start, contributions and bindings are submitted in some order, and the same
contribution may be submitted many times. This module compares the contexts that result
from the same submissions in different orders.

* `Configuration.outcome_eq`: what a resolve selects after the start depends on the
  sources and their entries, whatever their order, and on which types are found;
* `same_outcomes_iff`: two orders have the same outcomes and links exactly if they meet
  the same type first for each qualified name. The type index of a later type with this
  name is not registered.
-/

namespace Ctorium

open Attempt UniqueMax

/-! ## Configurations -/

/-- An instance that is bound before the start. -/
structure Binding where
  type : CppType
  name : String := ""
  priority : ℤ := 0
  object : Addr
  deriving DecidableEq, Repr

/-- Before the start, a span of contributions is submitted, or an instance is bound. -/
inductive Submission
  | span (cds : List ContributedDescriptor)
  | binding (binding : Binding)

namespace Submission

def call : Submission → BeanContext.Call
  | .span cds => .discover cds
  | .binding b => .bindSingleton b.type b.name b.priority b.object

def contributions : Submission → List ContributedDescriptor
  | .span cds => cds
  | .binding _ => []

def bindings : Submission → List Binding
  | .span _ => []
  | .binding b => [b]

end Submission

/-- What is submitted before the start, in this order. -/
abbrev Configuration := List Submission

namespace Configuration

def contributions (c : Configuration) : List ContributedDescriptor :=
  c.flatMap Submission.contributions

def bindings (c : Configuration) : List Binding := c.flatMap Submission.bindings

/-- The contributions that become descriptors. -/
def newContributions (c : Configuration) : List ContributedDescriptor :=
  Registry.newContributions [] c.contributions

/-- The context that the submissions have been made to. -/
def prepare (c : Configuration) (S : StdSort) (self : Addr) : Attempt Failure BeanContext :=
  forEach BeanContext.exec (c.map Submission.call) (.fresh S self)

def start (c : Configuration) (S : StdSort) (self : Addr) : Attempt Failure BeanContext :=
  (c.prepare S self).andThen BeanContext.start

/-- All submissions and the start succeed. -/
def Starts (c : Configuration) (S : StdSort) (self : Addr) : Prop := (c.start S self).failure = none

instance (c : Configuration) (S : StdSort) (self : Addr) : Decidable (c.Starts S self) :=
  inferInstanceAs (Decidable (_ = none))

/-- The tables of the start. -/
def startState (c : Configuration) (S : StdSort) (self : Addr) : Registry.StartState :=
  (Registry.merge { registry := (c.prepare S self).state.core } (c.prepare S self).state.self).state

/-! ## Outcomes -/

/-- The context with its scopes in these states. -/
def withStates (b : BeanContext) (states : ScopeId → ScopeState) : BeanContext :=
  { b with scopes := fun sc => { b.scopes sc with scopeState := states sc } }

/-- What a resolve after the start selects, by its source, or how it fails. -/
def outcome (c : Configuration) (S : StdSort) (self : Addr) (states : ScopeId → ScopeState)
    (scope : Option ScopeId) (type : CppType) (name : Option String) :
    Except Failure (Option Source) :=
  ((withStates (c.start S self).state states).resolve scope type name).map
    (c.startState S self).sourceOf

/-- The two configurations have the same contributions, each of them any number of times, and
    the same bindings. -/
structure Reorders (c c' : Configuration) : Prop where
  contributions : ∀ cd, cd ∈ c'.contributions ↔ cd ∈ c.contributions
  bindings : c'.bindings.Perm c.bindings

/-- The two configurations have the same outcomes and the same links. -/
structure SameOutcomes (c : Configuration) (S : StdSort) (root : Addr) (c' : Configuration)
    (S' : StdSort) (root' : Addr) : Prop where
  resolves : ∀ states scope type name,
    c'.outcome S' root' states scope type name = c.outcome S root states scope type name
  primaries : ∀ identity, (c'.startState S' root').primaryLink identity =
    (c.startState S root).primaryLink identity
  factories : ∀ identity, (c'.startState S' root').factoryLink identity =
    (c.startState S root).factoryLink identity

/-- The types that the start interns, in their order. -/
def types (c : Configuration) : List CppType :=
  c.newContributions.flatMap Registry.typesOf ++ c.bindings.map Binding.type ++
    [Registry.beanContextType]

/-- Identities identify contributions, and type indices identify types. -/
structure Identified (c : Configuration) : Prop where
  entities : ∀ cd ∈ c.contributions, ∀ cd' ∈ c.contributions, cd.identity = cd'.identity → cd = cd'
  typed : ∀ t ∈ c.types, ∀ t' ∈ c.types, t.index = t'.index → t = t'

/-! ## The reference outcome -/

def boundEntry (b : Binding) : Entry :=
  Registry.boundEntry b.type.name b.name b.priority .singleton

/-- The sources with their entries, without the context. -/
def sorted (c : Configuration) : List (Source × Entry) :=
  c.newContributions.map (fun cd => (.contributed cd.identity, Registry.contributedEntry cd)) ++
    c.bindings.map fun b => (.bound b.object, boundEntry b)

def rank (p : Source × Entry) : ℤ := p.2.priority

/-- The sources with their entries, in the order of the table. -/
def table (c : Configuration) : List (Source × Entry) :=
  c.sorted ++ [(Source.context, Registry.contextEntry)]

/-- The candidates of a key, with their sources. -/
def candidates (c : Configuration) (typeName beanName : String) : List (Source × Entry) :=
  Entry.candidates Prod.snd c.sorted (Source.context, Registry.contextEntry) typeName beanName

/-- Session beans are resolved from scopes that are not stopped. -/
def admitSource (states : ScopeId → ScopeState) (scope : Option ScopeId) (p : Source × Entry) :
    Except Failure (Option Source) :=
  match p.2.lifetime, scope with
  | .session, none => .error Wiring.sessionFromRoot
  | .session, some sc => if states sc = .stopped then .error Wiring.scopeStopped else .ok (some p.1)
  | _, _ => .ok (some p.1)

def isInterned (c : Configuration) (name : String) : Bool :=
  name == "" || (c.bindings.map Binding.name ++
    c.newContributions.map ContributedDescriptor.beanName).contains name

/-- The outcome of a resolve, by sources and entries. -/
def reference (c : Configuration) (states : ScopeId → ScopeState) (scope : Option ScopeId)
    (type : CppType) (name : Option String) : Except Failure (Option Source) :=
  match name.filter (fun name => !c.isInterned name) with
  | some unknown => .error (BeanContext.unknownQualifier unknown)
  | none =>
    match foundType c.types type.index with
    | none => .error Wiring.unregisteredType
    | some t => (choose rank (c.candidates t.name (name.getD ""))).bind (admitSource states scope)

/-! ## The submissions -/

/-- A pending singleton as it was bound. -/
def bindingOf (r : Registry) (pb : PendingRuntimeSingleton) : Binding where
  type := pb.type
  name := r.nameInterning.nameOf pb.nameId
  priority := pb.priority
  object := pb.boundInstance

/-- The context before the start, after these submissions. -/
structure Prepared (c : Configuration) (b : BeanContext) : Prop where
  interned : b.core.Interned
  pending : b.core.pending = c.contributions
  singletons : b.core.pendingRuntimeSingletons.map (bindingOf b.core) = c.bindings
  names : b.core.nameInterning.Holds (c.bindings.map Binding.name)
  descriptors : b.core.descriptors = []
  types : b.core.typeInterning = {}
  noDefault : b.core.hasAnyDefault = false
  noBean : b.core.beanContextDescId = none
  notStarted : b.core.started = false
  scopes : ∀ sc, (b.scopes sc).hasAnyScopedDefault = false

variable {c : Configuration} {b : BeanContext}

theorem prepared_fresh (S : StdSort) (self : Addr) : Prepared [] (.fresh S self) where
  interned := ⟨Registry.indexed_empty S, nofun, nofun⟩
  pending := rfl
  singletons := rfl
  names := NameInterning.holds_empty
  descriptors := rfl
  types := rfl
  noDefault := rfl
  noBean := rfl
  notStarted := rfl
  scopes _ := rfl

theorem Prepared.exec (h : Prepared c b) (submission : Submission)
    (hok : (b.exec submission.call).failure = none) :
    Prepared (c ++ [submission]) (b.exec submission.call).state := by
  have hcontributions : contributions (c ++ [submission]) =
      c.contributions ++ submission.contributions := by simp [contributions]
  have hbindings : bindings (c ++ [submission]) = c.bindings ++ submission.bindings := by
    simp [bindings]
  -- A span or a binding, and what it adds to the account.
  cases submission with
  | span cds =>
    have hstate : (b.exec (Submission.span cds).call).state =
        b.withCore { b.core with pending := b.core.pending ++ cds } := by
      simp [Submission.call, BeanContext.exec, BeanContext.discover, Registry.submitContribution,
        h.notStarted]
    rw [hstate]
    refine { h with pending := ?_, singletons := ?_, names := ?_, interned := ?_ }
    · exact ⟨h.interned.indexed, h.interned.named, h.interned.pending⟩
    · rw [hcontributions, ← h.pending]
      rfl
    · rw [hbindings]
      exact h.singletons.trans (List.append_nil _).symm
    · rw [hbindings]
      exact (List.append_nil c.bindings).symm ▸ h.names
  | binding binding =>
    have hnames := h.interned.withNames binding.name
    have hstate : (b.exec (Submission.binding binding).call).state =
        b.withCore { b.core.withNames (b.core.nameInterning.intern binding.name).2 with
          pendingRuntimeSingletons := b.core.pendingRuntimeSingletons ++ [⟨binding.object,
            binding.type, (b.core.nameInterning.intern binding.name).1, binding.priority⟩] } := by
      have hnot : (b.core.withNames (b.core.nameInterning.intern binding.name).2).started =
          false := h.notStarted
      simp only [Submission.call, BeanContext.exec, BeanContext.bindSingleton,
        Registry.bindSingleton, Registry.bindSingletonPending, hnot, Bool.false_eq_true,
        if_false] at hok ⊢
      split_ifs at hok ⊢
      · cases hok
      · cases hok
      · rfl
    rw [hstate]
    refine { h with interned := ?_, pending := ?_, singletons := ?_, names := ?_ }
    · refine ⟨hnames.indexed, hnames.named, fun pb hpb => ?_⟩
      rcases List.mem_append.mp hpb with hpb | hpb
      · exact hnames.pending pb hpb
      · rw [List.mem_singleton.mp hpb]
        exact NameInterning.intern_lt h.interned.indexed.names _
    · rw [hcontributions]
      exact h.pending.trans (List.append_nil _).symm
    · rw [hbindings, ← h.singletons]
      refine (List.map_append ..).trans (congrArg₂ _ (List.map_congr_left fun pb hpb => ?_) ?_)
      · exact congrArg (fun name => Binding.mk _ name _ _)
          (NameInterning.nameOf_intern h.interned.indexed.names (h.interned.pending pb hpb))
      · exact congrArg (fun name => [Binding.mk _ name _ _])
          (NameInterning.nameOf_intern_self h.interned.indexed.names _)
    · rw [hbindings, List.map_append]
      exact h.names.intern binding.name

theorem prepared_forEach {c' : Configuration} (h : Prepared c b)
    (hok : (forEach BeanContext.exec (c'.map Submission.call) b).failure = none) :
    Prepared (c ++ c') (forEach BeanContext.exec (c'.map Submission.call) b).state := by
  induction c' generalizing c b with
  | nil => simpa [forEach] using h
  | cons submission c' ih =>
    obtain ⟨hfirst, hrest, heq⟩ := forEach_cons_eq_none hok
    rw [List.map_cons, heq, List.append_cons]
    exact ih (h.exec submission hfirst) hrest

/-! ## The started context -/

open Registry in
/-- The state that phases 1 to 2.5 have led to, and what the end of the start makes of it. -/
structure Finished (c : Configuration) (S : StdSort) (root ctx : Addr) (s : StartState) :
    Prop where
  interned : s.registry.Interned
  entries : s.registry.entries = c.sorted.map Prod.snd
  linked : ∃ pbs, pbs.map PendingRuntimeSingleton.type = c.bindings.map Binding.type ∧
    pbs.map PendingRuntimeSingleton.boundInstance = c.bindings.map Binding.object ∧
    Linked (c.bindings.map Binding.name) c.newContributions pbs s
  state : c.startState S root = finishStart (sortState s) ctx
  core : (c.start S root).state.core = (finishStart (sortState s) ctx).registry
  noDefault : (c.start S root).state.core.hasAnyDefault = false
  scopes : ∀ sc, ((c.start S root).state.scopes sc).hasAnyScopedDefault = false

variable {S : StdSort} {self : Addr}

theorem Starts.finished (h : c.Starts S self) : ∃ ctx s, Finished c S self ctx s := by
  obtain ⟨hprepare, hstart⟩ := andThen_failure_eq_none.mp h
  have hprepared := prepared_forEach (prepared_fresh S self) hprepare
  rw [List.nil_append] at hprepared
  change Prepared c (c.prepare S self).state at hprepared
  have heq : c.start S self = (c.prepare S self).state.start := andThen_of_ok hprepare
  generalize hb : (c.prepare S self).state = b at hprepared hstart heq
  -- The context is a new one, so the start merges.
  have hcore : b.core.start b.self = ⟨(Registry.merge { registry := b.core } b.self).state.registry,
      (Registry.merge { registry := b.core } b.self).failure⟩ := by
    rcases Registry.start_cases b.core b.self with ⟨hs, -⟩ | ⟨id, -, hid, -⟩ | ⟨-, -, hcore⟩
    · rw [hprepared.notStarted] at hs
      cases hs
    · rw [hprepared.noBean] at hid
      cases hid
    · exact hcore
  have hmerge : (Registry.merge { registry := b.core } b.self).failure = none := by
    simpa only [BeanContext.start, hcore] using hstart
  obtain ⟨hlink, -, -, hstate⟩ := Registry.merge_of_ok hmerge
  obtain ⟨hmergeAll, -⟩ := andThen_failure_eq_none.mp hlink
  have hcontext : (c.start S self).state.core =
      (Registry.finishStart (Registry.sortState (Registry.mergeAndLink
        { registry := b.core }).state) b.self).registry := by
    rw [heq, ← hstate]
    exact congrArg Attempt.state hcore
  have hframe := (Registry.Frame.refl b.core).mergeAndLink (s := { registry := b.core })
  have hnew : c.newContributions = Registry.newContributions [] b.core.pending := by
    rw [newContributions, ← hprepared.pending]
  refine ⟨b.self, (Registry.mergeAndLink { registry := b.core }).state,
    Registry.mergeAndLink_interned hprepared.interned, ?_,
    ⟨b.core.pendingRuntimeSingletons, ?_, ?_, ?_⟩, ?_, hcontext, ?_, ?_⟩
  · rw [Registry.mergeAndLink_entries hprepared.interned hmergeAll, sorted, hnew,
      ← hprepared.singletons, List.map_append, List.map_map, List.map_map, List.map_map]
    rw [Registry.entries, hprepared.descriptors]
    rfl
  · rw [← hprepared.singletons, List.map_map]
    rfl
  · rw [← hprepared.singletons, List.map_map]
    rfl
  · rw [hnew]
    exact Registry.mergeAndLink_linked hprepared.descriptors hprepared.types hprepared.names hlink
  · rw [startState, hb]
    exact hstate
  · rw [hcontext]
    exact hframe.hasAnyDefault.trans hprepared.noDefault
  · rw [heq]
    exact hprepared.scopes

/-! ## Selection by entries -/

section Finished

open Registry

variable {ctx : Addr} {s : StartState} (h : Finished c S self ctx s)

include h

theorem Finished.interned_core :
    (c.start S self).state.core.Interned ∧
    (c.start S self).state.core.entries = c.table.map Prod.snd := by
  obtain ⟨hinterned, hentries⟩ := finishStart_interned h.interned ctx
  rw [h.core]
  refine ⟨hinterned, hentries.trans ?_⟩
  rw [h.entries, table, List.map_append]
  rfl

/-- The sources are those of the table. -/
theorem Finished.sourceOf (id : DescriptorId) :
    (c.startState S self).sourceOf id = c.table[id]?.map Prod.fst := by
  obtain ⟨pbs, -, hobjects, hlinked⟩ := h.linked
  have hsources : tableSources c.newContributions pbs ++ [.context] = c.table.map Prod.fst := by
    have hbound := congrArg (List.map Source.bound) hobjects
    simp only [List.map_map] at hbound
    simp only [tableSources, table, sorted, List.map_append, List.map_map]
    refine congrArg₂ _ (congrArg₂ _ rfl ?_) rfl
    exact hbound
  rw [h.state, hlinked.sourceOf, hsources, List.getElem?_map]

/-- The selection for a key, by sources and entries. -/
theorem Finished.selectKey {typeId : TypeId}
    (htype : typeId < (c.start S self).state.core.typeInterning.size) {nameId : NameId}
    (hname : nameId < (c.start S self).state.core.nameInterning.size) :
    (BeanContext.selectKey (c.start S self).state.core typeId nameId).map (fun id => c.table[id]?) =
      (choose rank (c.candidates ((c.start S self).state.core.typeInterning.nameOf typeId)
        ((c.start S self).state.core.nameInterning.nameOf nameId))).map some := by
  rw [h.core] at htype hname ⊢
  exact selectKey_finishStart_candidates h.interned h.entries rfl ctx htype hname

theorem Finished.lookupByTypeIndex (index : ℕ) :
    ((c.start S self).state.core.typeInterning.lookupByTypeIndex index).map
        (c.start S self).state.core.typeInterning.nameOf =
      (foundType c.types index).map CppType.name := by
  obtain ⟨pbs, htypes, -, hlinked⟩ := h.linked
  rw [h.core, hlinked.found_finishStart ctx, types, htypes]

theorem Finished.lookup_eq_none_iff (name : String) :
    (c.start S self).state.core.nameInterning.lookup name = none ↔ c.isInterned name = false := by
  obtain ⟨pbs, -, -, hlinked⟩ := h.linked
  rw [h.core]
  refine hlinked.names.lookup_eq_none_iff.trans ?_
  rw [← Bool.not_eq_true, isInterned, Bool.or_eq_true, beq_iff_eq, List.contains_iff_mem]

/-- The admission of a selected descriptor, by its entry. -/
theorem Finished.admitted (states : ScopeId → ScopeState) (scope : Option ScopeId)
    {id : DescriptorId} {p : Source × Entry} (hp : c.table[id]? = some p) :
    (Wiring.admitted (withStates (c.start S self).state states) scope id).map
      (c.startState S self).sourceOf = admitSource states scope p := by
  obtain ⟨-, hentries⟩ := h.interned_core
  have hget := congrArg (fun l => l[id]?) hentries
  simp only [Registry.entries, List.getElem?_map, hp, Option.map_some] at hget
  obtain ⟨d, hd, hentry⟩ := Option.map_eq_some_iff.mp hget
  have hlifetime : Wiring.lifetimeOf (withStates (c.start S self).state states) id =
      some p.2.lifetime := by
    rw [Wiring.lifetimeOf, ← hentry]
    exact congrArg (Option.map Descriptor.lifetime) hd
  have hsource : (c.startState S self).sourceOf id = some p.1 := by
    rw [h.sourceOf, hp, Option.map_some]
  unfold Wiring.admitted admitSource
  rw [hlifetime]
  -- Only session beans depend on the scope.
  cases p.2.lifetime with
  | session =>
    cases scope with
    | none => rfl
    | some sc =>
      change Except.map _ (if states sc = .stopped then _ else _) =
        if states sc = .stopped then _ else _
      split_ifs
      · rfl
      · exact congrArg Except.ok hsource
  | singleton => exact congrArg Except.ok hsource
  | prototype => exact congrArg Except.ok hsource
  | threadLocal => exact congrArg Except.ok hsource

/-- After the start, no default name is set. -/
theorem Finished.select (states : ScopeId → ScopeState) (scope : Option ScopeId) (typeId : TypeId)
    (nameId : NameId) : (withStates (c.start S self).state states).select scope typeId nameId =
      BeanContext.selectKey (c.start S self).state.core typeId nameId := by
  have hstarted : (withStates (c.start S self).state states).core.started = true := by
    change (c.start S self).state.core.started = true
    rw [h.core]
    rfl
  have hname : (withStates (c.start S self).state states).effectiveName scope typeId nameId =
      nameId := by
    have hroot :
        (withStates (c.start S self).state states).core.hasAnyDefault = false := h.noDefault
    have hscope : ∀ sc, ((withStates (c.start S self).state states).scopes sc).hasAnyScopedDefault =
        false := h.scopes
    unfold BeanContext.effectiveName
    split_ifs with hunnamed
    · cases scope <;> simp [hroot, hscope, hunnamed]
    · rfl
  rw [BeanContext.select, hstarted, hname]
  rfl

theorem Finished.resolveTarget (states : ScopeId → ScopeState) (scope : Option ScopeId)
    (type : CppType) {nameId : NameId}
    (hname : nameId < (c.start S self).state.core.nameInterning.size) :
    (Wiring.resolveTarget (withStates (c.start S self).state states) scope type nameId).map
        (c.startState S self).sourceOf =
      match foundType c.types type.index with
      | none => .error Wiring.unregisteredType
      | some t => (choose rank (c.candidates t.name
          ((c.start S self).state.core.nameInterning.nameOf nameId))).bind
          (admitSource states scope) := by
  have hcore : (withStates (c.start S self).state states).core = (c.start S self).state.core := rfl
  have hstarted : (c.start S self).state.core.started = true := by
    rw [h.core]
    rfl
  have hlookup := h.lookupByTypeIndex type.index
  simp only [Wiring.resolveTarget, hcore, hstarted, Bool.not_true, Bool.false_eq_true, if_false]
  -- The call fails at the type, at the selection or at the lifetime, as the reference does.
  cases htype : (c.start S self).state.core.typeInterning.lookupByTypeIndex type.index with
  | none =>
    rw [htype, Option.map_none] at hlookup
    rw [Option.map_eq_none_iff.mp hlookup.symm]
    rfl
  | some typeId =>
    rw [htype, Option.map_some] at hlookup
    obtain ⟨t, ht, htname⟩ := Option.map_eq_some_iff.mp hlookup.symm
    have hlt := h.interned_core.1.indexed.types.found _ _ htype
    have hselected := h.selectKey hlt hname
    simp only [ht, htname, h.select]
    cases hkey : BeanContext.selectKey (c.start S self).state.core typeId nameId with
    | error e =>
      rw [hkey] at hselected
      cases hchoose : choose rank (c.candidates ((c.start S self).state.core.typeInterning.nameOf
          typeId) ((c.start S self).state.core.nameInterning.nameOf nameId)) with
      | error e' =>
        rw [hchoose] at hselected
        exact congrArg Except.error (Except.error.inj hselected)
      | ok p =>
        rw [hchoose] at hselected
        cases hselected
    | ok id =>
      rw [hkey] at hselected
      cases hchoose : choose rank (c.candidates ((c.start S self).state.core.typeInterning.nameOf
          typeId) ((c.start S self).state.core.nameInterning.nameOf nameId)) with
      | error e' =>
        rw [hchoose] at hselected
        cases hselected
      | ok p =>
        rw [hchoose] at hselected
        exact h.admitted states scope (Except.ok.inj hselected)

/-- What a resolve after the start selects is a matter of sources and entries. -/
theorem Finished.outcome_eq (states : ScopeId → ScopeState) (scope : Option ScopeId)
    (type : CppType)
    (name : Option String) :
    c.outcome S self states scope type name = c.reference states scope type name := by
  have hvalid := h.interned_core.1.indexed.names
  cases name with
  | none =>
    refine (h.resolveTarget states scope type (NameInterning.kUnnamed_lt hvalid)).trans ?_
    rw [NameInterning.nameOf_kUnnamed hvalid]
    rfl
  | some name =>
    have hlookup := h.lookup_eq_none_iff name
    have hcore : (withStates (c.start S self).state states).core =
      (c.start S self).state.core := rfl
    simp only [outcome, reference, BeanContext.resolve, hcore]
    cases hid : (c.start S self).state.core.nameInterning.lookup name with
    | none => simp [hlookup.mp hid, Option.filter, Except.map]
    | some nameId =>
      obtain ⟨hlt, rfl⟩ := (NameInterning.lookup_eq_some_iff hvalid).mp hid
      have hinterned : c.isInterned ((c.start S self).state.core.nameInterning.nameOf nameId) =
          true := by
        by_contra hnot
        rw [hlookup.mpr (Bool.not_eq_true _ ▸ hnot)] at hid
        cases hid
      simp only [Option.filter, hinterned, Bool.not_true, Bool.false_eq_true, if_false,
        Option.getD_some]
      exact h.resolveTarget states scope type hlt

end Finished

/-! ## Reordering -/

section Reorder

variable {c' : Configuration}

theorem mem_newContributions {cds : List ContributedDescriptor} {seen : List Identity}
    (hsame : ∀ cd ∈ cds, ∀ cd' ∈ cds, cd.identity = cd'.identity → cd = cd')
    {cd : ContributedDescriptor} : cd ∈ Registry.newContributions seen cds ↔
      cd ∈ cds ∧ cd.identity ∉ seen := by
  induction cds generalizing seen with
  | nil => simp [Registry.newContributions]
  | cons first cds ih =>
    have hsame' : ∀ a ∈ cds, ∀ b ∈ cds, a.identity = b.identity → a = b :=
      fun a ha b hb => hsame a (by simp [ha]) b (by simp [hb])
    have hrest : cd ∈ Registry.newContributions seen cds ↔ cd ∈ cds ∧ cd.identity ∉ seen :=
      ih hsame'
    have hmore : cd ∈ Registry.newContributions (seen ++ [first.identity]) cds ↔
        cd ∈ cds ∧ cd.identity ∉ seen ++ [first.identity] := ih hsame'
    rw [Registry.newContributions]
    split_ifs with hseen
    · rw [hrest, List.mem_cons, or_and_right, or_iff_right]
      rintro ⟨rfl, hnot⟩
      exact hnot hseen
    · rw [List.mem_cons, hmore, List.mem_cons]
      constructor
      · rintro (rfl | ⟨hmem, hnot⟩)
        · exact ⟨.inl rfl, hseen⟩
        · exact ⟨.inr hmem, fun hin => hnot (List.mem_append_left _ hin)⟩
      · rintro ⟨rfl | hmem, hnot⟩
        · exact .inl rfl
        · by_cases heq : cd.identity = first.identity
          · -- The same identity is the same contribution.
            exact .inl (hsame cd (by simp [hmem]) first (by simp) heq)
          · exact .inr ⟨hmem, by simp [hnot, heq]⟩

theorem nodup_newContributions (seen : List Identity) (cds : List ContributedDescriptor) :
    (Registry.newContributions seen cds).Nodup ∧
      ∀ cd ∈ Registry.newContributions seen cds, cd.identity ∉ seen := by
  induction cds generalizing seen with
  | nil => exact ⟨List.nodup_nil, nofun⟩
  | cons first cds ih =>
    rw [Registry.newContributions]
    split_ifs with hseen
    · exact ih seen
    · obtain ⟨hnodup, hfresh⟩ := ih (seen ++ [first.identity])
      refine ⟨List.nodup_cons.mpr ⟨fun hmem => hfresh first hmem (by simp), hnodup⟩, ?_⟩
      intro cd hcd
      rcases List.mem_cons.mp hcd with rfl | hcd
      · exact hseen
      · exact fun hin => hfresh cd hcd (List.mem_append_left _ hin)

theorem Reorders.identified (h : Reorders c c') (hid : c.Identified) :
    ∀ cd ∈ c'.contributions, ∀ cd' ∈ c'.contributions, cd.identity = cd'.identity → cd = cd' :=
  fun cd hcd cd' hcd' => hid.entities cd ((h.contributions cd).mp hcd) cd'
    ((h.contributions cd').mp hcd')

theorem Reorders.newContributions (h : Reorders c c') (hid : c.Identified) :
    c'.newContributions.Perm c.newContributions := by
  refine (List.perm_ext_iff_of_nodup (nodup_newContributions _ _).1
    (nodup_newContributions _ _).1).mpr fun cd => ?_
  rw [mem_newContributions (h.identified hid), mem_newContributions hid.entities, h.contributions]

theorem Reorders.mem_types (h : Reorders c c') (hid : c.Identified) (t : CppType) :
    t ∈ c'.types ↔ t ∈ c.types := by
  simp only [types, List.mem_append, ((h.newContributions hid).flatMap_right _).mem_iff,
    (h.bindings.map Binding.type).mem_iff]

theorem Reorders.candidates (h : Reorders c c') (hid : c.Identified) (typeName beanName : String) :
    (c'.candidates typeName beanName).Perm (c.candidates typeName beanName) := by
  have hsorted : c'.sorted.Perm c.sorted :=
    ((h.newContributions hid).map _).append (h.bindings.map _)
  exact Entry.candidates_perm hsorted (Source.context, Registry.contextEntry) typeName beanName

theorem Reorders.isInterned (h : Reorders c c') (hid : c.Identified) (name : String) :
    c'.isInterned name = c.isInterned name := by
  have hperm := (h.bindings.map Binding.name).append
    ((h.newContributions hid).map ContributedDescriptor.beanName)
  rw [Configuration.isInterned, Configuration.isInterned, hperm.contains_eq]

/-- If type indices identify types, a type is found if it is the first one of its name. -/
theorem foundType_eq_some_iff {types : List CppType}
    (htyped : ∀ t ∈ types, ∀ t' ∈ types, t.index = t'.index → t = t') {index : ℕ} {t : CppType} :
    foundType types index = some t ↔ t.index = index ∧ firstType types t.name = some t := by
  constructor
  · intro hfound
    simpa using List.find?_some hfound
  · rintro ⟨rfl, hfirst⟩
    have ht := List.mem_of_find?_eq_some hfirst
    obtain ⟨t', ht'⟩ : ∃ t', foundType types t.index = some t' :=
      Option.ne_none_iff_exists'.mp fun hnone =>
        List.find?_eq_none.mp hnone t ht (by simp [hfirst])
    have hindex : t'.index = t.index := by
      have hboth := List.find?_some ht'
      simp only [Bool.and_eq_true, beq_iff_eq] at hboth
      exact hboth.1
    rw [ht', htyped t' (List.mem_of_find?_eq_some ht') t ht hindex]

/-- A selection never fails like the lookup of an unknown type. -/
theorem choose_admit_ne_unregisteredType (states : ScopeId → ScopeState) (scope : Option ScopeId)
    (l : List (Source × Entry)) :
    (choose rank l).bind (admitSource states scope) ≠ .error Wiring.unregisteredType := by
  unfold choose admitSource
  match tops rank l with
  | [] => exact fun heq => absurd (Except.error.inj heq) (by decide)
  | [p] =>
    simp only [Except.bind]
    split
    · decide
    · split_ifs
      · decide
      · nofun
    · nofun
  | _ :: _ :: _ => exact fun heq => absurd (Except.error.inj heq) (by decide)

/-- A type that is found in one order is found in the other one, if resolves agree. -/
theorem SameOutcomes.firstType {S' : StdSort} {self' : Addr} (h : SameOutcomes c S self c' S' self')
    (hs : c.Starts S self) (hs' : c'.Starts S' self') (htypes : ∀ t, t ∈ c'.types ↔ t ∈ c.types)
    (htyped : ∀ t ∈ c.types, ∀ t' ∈ c.types, t.index = t'.index → t = t') {typeName : String}
    {t : CppType} (ht : firstType c.types typeName = some t) :
    firstType c'.types typeName = some t := by
  obtain ⟨ctx, s, hfinished⟩ := hs.finished
  obtain ⟨ctx', s', hfinished'⟩ := hs'.finished
  obtain rfl : t.name = typeName := by simpa using List.find?_some ht
  have hfound := (foundType_eq_some_iff htyped).mpr ⟨rfl, ht⟩
  have hresolve := h.resolves (fun _ => ScopeState.running) none t none
  rw [hfinished.outcome_eq, hfinished'.outcome_eq] at hresolve
  cases hfound' : foundType c'.types t.index with
  | none =>
    simp only [reference, Option.filter, hfound, hfound'] at hresolve
    exact absurd hresolve.symm (choose_admit_ne_unregisteredType _ _ _)
  | some t' =>
    have htyped' : ∀ u ∈ c'.types, ∀ u' ∈ c'.types, u.index = u'.index → u = u' :=
      fun u hu u' hu' => htyped u ((htypes u).mp hu) u' ((htypes u').mp hu')
    obtain ⟨hindex, hfirst⟩ := (foundType_eq_some_iff htyped').mp hfound'
    have hmem : t' ∈ c.types := (htypes t').mp (List.mem_of_find?_eq_some hfirst)
    obtain rfl := htyped t' hmem t (List.mem_of_find?_eq_some ht) hindex
    exact hfirst

/-- Two orders of the same submissions that both start have the same outcomes and the same
    links exactly if they meet the same type first for each qualified name. -/
theorem same_outcomes_iff {S' : StdSort} {self' : Addr} (h : Reorders c c') (hid : c.Identified)
    (hs : c.Starts S self) (hs' : c'.Starts S' self') :
    SameOutcomes c S self c' S' self' ↔
      ∀ typeName, firstType c'.types typeName = firstType c.types typeName := by
  have htypes := h.mem_types hid
  have htyped' : ∀ t ∈ c'.types, ∀ t' ∈ c'.types, t.index = t'.index → t = t' :=
    fun t ht t' ht' => hid.typed t ((htypes t).mp ht) t' ((htypes t').mp ht')
  -- If the outcomes agree, so do the types that are found.
  constructor
  · intro hsame typeName
    cases hfirst : firstType c.types typeName with
    | some t => exact hsame.firstType hs hs' htypes hid.typed hfirst
    | none =>
      rw [TypeInterning.firstType_eq_none_iff] at hfirst ⊢
      simpa only [htypes] using hfirst
  -- If the first types agree, types and candidates do, and the rest does not depend on the order.
  · intro hfirst
    obtain ⟨ctx, s, hfinished⟩ := hs.finished
    obtain ⟨ctx', s', hfinished'⟩ := hs'.finished
    have hfound : ∀ index, foundType c'.types index = foundType c.types index := fun index =>
      Option.ext fun t => by
        rw [foundType_eq_some_iff htyped', foundType_eq_some_iff hid.typed, hfirst]
    have hfind : ∀ identity, c'.newContributions.find? (fun cd => cd.identity == identity) =
        c.newContributions.find? fun cd => cd.identity == identity := by
      intro identity
      refine List.find?_eq_find?_of_perm (h.newContributions hid) fun cd hcd cd' hcd' => ?_
      obtain ⟨hmem, hidentity⟩ := hcd
      obtain ⟨hmem', hidentity'⟩ := hcd'
      exact h.identified hid cd ((mem_newContributions (h.identified hid)).mp hmem).1 cd'
        ((mem_newContributions (h.identified hid)).mp hmem').1
        ((beq_iff_eq.mp hidentity).trans (beq_iff_eq.mp hidentity').symm)
    obtain ⟨pbs, -, -, hlinked⟩ := hfinished.linked
    obtain ⟨pbs', -, -, hlinked'⟩ := hfinished'.linked
    refine ⟨fun states scope type name => ?_, fun identity => ?_, fun identity => ?_⟩
    · rw [hfinished.outcome_eq, hfinished'.outcome_eq, reference, reference]
      simp only [h.isInterned hid, hfound, choose_perm (h.candidates hid _ _)]
    · rw [hfinished.state, hfinished'.state, hlinked.primaryLink, hlinked'.primaryLink, hfind]
    · rw [hfinished.state, hfinished'.state, hlinked.factoryLink, hlinked'.factoryLink, hfind]

/-- Two beans whose types have the same qualified name, as it leaves out what encloses an unnamed
    namespace. -/
def plainFoo : ContributedDescriptor where
  identity := 1
  exposedType := ⟨"Foo", 1⟩
  concreteType := ⟨"Foo", 1⟩
  lifetime := .singleton

@[inherit_doc plainFoo]
def namedFoo : ContributedDescriptor where
  identity := 2
  exposedType := ⟨"Foo", 2⟩
  concreteType := ⟨"Foo", 2⟩
  beanName := "x"
  lifetime := .singleton

/-- A clock that is bound before or after a bean is contributed. -/
def clock : Binding where
  type := ⟨"Clock", 3⟩
  object := 100

theorem same_outcomes_clock : SameOutcomes [.binding clock, .span [plainFoo]] .insertion 0
    [.span [plainFoo, plainFoo], .binding clock, .span [plainFoo]] .insertion 0 := by
  refine (same_outcomes_iff ⟨fun cd => ?_, ?_⟩ ⟨?_, ?_⟩ ?_ ?_).mpr fun typeName => ?_
  · simp [contributions, Submission.contributions]
  · exact List.Perm.refl [clock]
  · decide
  · decide
  · decide
  · decide
  · rfl

/-- In the other order, the first bean is not found. -/
theorem order_decides_unregistered : ∃ c c' : Configuration, Reorders c c' ∧ c.Identified ∧
    c.Starts .insertion 0 ∧ c'.Starts .insertion 0 ∧
      ¬SameOutcomes c .insertion 0 c' .insertion 0 := by
  refine ⟨[.span [plainFoo, namedFoo]], [.span [namedFoo, plainFoo]],
    ⟨fun cd => ?_, ?_⟩, ⟨?_, ?_⟩, ?_, ?_, fun h => ?_⟩
  · simp [contributions, Submission.contributions, or_comm]
  · exact List.Perm.nil
  · decide
  · decide
  · decide
  · decide
  · have hresolve := h.resolves (fun _ => ScopeState.running) none ⟨"Foo", 1⟩ none
    revert hresolve
    decide

end Reorder

end Configuration

end Ctorium
