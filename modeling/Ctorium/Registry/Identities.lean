import Ctorium.QualifiedName
import Ctorium.Registry.InjectionPoints
import Ctorium.Registry.Producers

/-!
# The identities of contributions

`start()` takes contributions with one identity for contributions of one bean. The
identity is a hash of the kind of the bean, of qualified names, of the bean name and
of the lifetime, one after another with separators; for the product of a factory, of
the name of the producer method, but neither of its signature nor of what it
produces. The hash is taken as injective on the characters that are fed to it.

* `identity_eq_iff`: two beans have the same identity exactly if they agree in what is
  hashed, their `Key`;
* `separates_iff`: identities tell the beans of a program apart, and no two producer
  methods are merged or escape the validation of the start, exactly if no two beans
  have the same key.
-/

namespace Ctorium.Identities

open QualifiedName Wiring InjectionPoints Registry

/-! ## Beans and their identities -/

/-- A producer method of a factory. Overloads have the same identifier. -/
structure ProducerMethod (δ : Type*) where
  identifier : Identifier
  parameterTypes : List (EnclosedType δ) := []
  /-- The qualifiers behind the parameters, such as `const`. -/
  qualifiers : List Identifier := []
  deriving DecidableEq

/-- What an identity is computed for. -/
inductive Bean (δ : Type*)
  | annotatedType (type : EnclosedType δ) (beanName : String) (lifetime : Lifetime)
  | factory (type : EnclosedType δ)
  | product (declaringFactory : EnclosedType δ) (method : ProducerMethod δ)
    (productType : EnclosedType δ) (beanName : String) (lifetime : Lifetime)
  | exposedBase (base concrete : EnclosedType δ) (beanName : String) (lifetime : Lifetime)
  deriving DecidableEq

/-- The 64-bit hash, as the function that mixes one character into the state. In the source it
    is `(hash ^ c) * 1099511628211`. -/
structure Fnv where
  mix : Identity → Char → Identity
  seed : Identity
  injective : Function.Injective fun data : List Char => data.foldl mix seed

/-- The character of a byte. -/
def byte (n : ℕ) : Char := Char.ofNat n

/-- The value of the enumerator. -/
def lifetimeByte : Lifetime → Char
  | .prototype => byte 0
  | .singleton => byte 1
  | .session => byte 2
  | .threadLocal => byte 3

namespace Fnv

variable (F : Fnv)

def fnv1a64 (data : List Char) (seed : Identity) : Identity := data.foldl F.mix seed

def fnv1a64Byte (b : ℕ) (seed : Identity) : Identity := F.mix seed (byte b)

def computeIdentityForType (typeName beanName : String) (lifetime : Lifetime) : Identity :=
  let h := F.fnv1a64Byte 0 F.seed
  let h := F.fnv1a64 typeName.toList h
  let h := F.fnv1a64 [';'] h
  let h := F.fnv1a64 beanName.toList h
  let h := F.fnv1a64 [';'] h
  F.mix h (lifetimeByte lifetime)

def computeIdentityForProduct (method factoryName beanName : String) (lifetime : Lifetime) :
    Identity :=
  let h := F.fnv1a64Byte 1 F.seed
  let h := F.fnv1a64 factoryName.toList h
  let h := F.fnv1a64 [':', ':'] h
  let h := F.fnv1a64 method.toList h
  let h := F.fnv1a64 [';'] h
  let h := F.fnv1a64 beanName.toList h
  let h := F.fnv1a64 [';'] h
  F.mix h (lifetimeByte lifetime)

def computeIdentityForExposedType (baseName concreteName beanName : String) (lifetime : Lifetime) :
    Identity :=
  let h := F.fnv1a64Byte 2 F.seed
  let h := F.fnv1a64 baseName.toList h
  let h := F.fnv1a64 [';'] h
  let h := F.fnv1a64 concreteName.toList h
  let h := F.fnv1a64 [';'] h
  let h := F.fnv1a64 beanName.toList h
  let h := F.fnv1a64 [';'] h
  F.mix h (lifetimeByte lifetime)

def hashes : IdentityHashes where
  forType := F.computeIdentityForType
  forExposedType := F.computeIdentityForExposedType
  forProduct := F.computeIdentityForProduct

end Fnv

variable {δ : Type*} (F : Fnv) (P : Program δ)

def methodName (method : ProducerMethod δ) : String := String.ofList method.identifier.chars

def identity : Bean δ → Identity
  | .annotatedType type beanName lifetime =>
    F.hashes.forType (P.qualifiedNameOf type) beanName lifetime
  | .factory type => F.hashes.forType (P.qualifiedNameOf type) "" .singleton
  | .product declaringFactory method _ beanName lifetime =>
    F.hashes.forProduct (methodName method) (P.qualifiedNameOf declaringFactory) beanName lifetime
  | .exposedBase base concrete beanName lifetime =>
    F.hashes.forExposedType (P.qualifiedNameOf base) (P.qualifiedNameOf concrete) beanName lifetime

/-! ## Keys -/

/-- What of a bean is hashed. -/
inductive Key (δ : Type*)
  | type (path : Path δ) (beanName : String) (lifetime : Lifetime)
  | product (declaringFactory : Path δ) (method : Identifier) (beanName : String)
    (lifetime : Lifetime)
  | exposedBase (base concrete : Path δ) (beanName : String) (lifetime : Lifetime)
  deriving DecidableEq

/-- A factory has the key of an unnamed singleton of its type. -/
def key : Bean δ → Key δ
  | .annotatedType type beanName lifetime => .type (P.path type) beanName lifetime
  | .factory type => .type (P.path type) "" .singleton
  | .product declaringFactory method _ beanName lifetime =>
    .product (P.path declaringFactory) method.identifier beanName lifetime
  | .exposedBase base concrete beanName lifetime =>
    .exposedBase (P.path base) (P.path concrete) beanName lifetime

/-- The characters of a path. -/
def pathChars (D : Specializations δ) (p : Path δ) : List Char :=
  (D.backwards p.names p.root).reverse

/-- A display string is not cut in two by a semicolon: what stands before one, such as the
    beginning of a character literal, is not the name of anything. -/
def Delimited (D : Specializations δ) : Prop :=
  ∀ s p rest, D.displayStringOf s ≠ pathChars D p ++ ';' :: rest

variable {P} {D : Specializations δ}

theorem qualifiedNameOf_toList (t : EnclosedType δ) :
    (D.qualifiedNameOf t).toList = pathChars D (D.path t) := by
  rw [pathChars, ← Specializations.reverse_qualifiedNameOf, List.reverse_reverse]

theorem pathChars_injective : Function.Injective (pathChars D) := by
  intro p q h
  obtain ⟨hnames, hroot⟩ := Specializations.backwards_inj (List.reverse_injective h)
  cases p
  cases q
  simp_all

/-- A path with one more identifier. -/
theorem pathChars_cons (name : Identifier) (t : EnclosedType δ) :
    pathChars D ⟨name :: (D.path t).names, (D.path t).root⟩ =
      pathChars D (D.path t) ++ [':', ':'] ++ name.chars := by
  have hne : ¬((D.path t).names = [] ∧ (D.path t).root.isNone) := by
    cases t with
    | named name scopes => exact fun hand => List.cons_ne_nil _ _ hand.1
    | specialization s => exact fun hand => nomatch hand.2
  rw [pathChars, Specializations.backwards, if_neg hne]
  simp [pathChars]

/-- What stands before a semicolon in a list that ends without one. -/
theorem append_cons_eq_append {a b c d : List Char} (h : a ++ ';' :: b = c ++ d) (hd : ';' ∉ d) :
    ∃ b', c = a ++ ';' :: b' := by
  rcases List.append_eq_append_iff.1 h with ⟨e, rfl, heq⟩ | ⟨e, rfl, heq⟩
  · cases e with
    | nil =>
      rw [List.nil_append] at heq
      exact absurd (heq ▸ List.mem_cons_self) hd
    | cons x e =>
      obtain ⟨rfl, -⟩ := List.cons.inj heq
      exact ⟨e, rfl⟩
  · rw [heq] at hd
    exact absurd (List.mem_append_right _ List.mem_cons_self) hd

/-- A semicolon in a name stands in a display string. -/
theorem displayString_of_semicolon {a b : List Char} {names : List Identifier} {root : Option δ}
    (h : pathChars D ⟨names, root⟩ = a ++ ';' :: b) :
    ∃ s b', D.displayStringOf s = a ++ ';' :: b' := by
  induction names generalizing b with
  | nil =>
    cases root with
    | none => exact absurd h.symm (List.append_ne_nil_of_right_ne_nil _ (List.cons_ne_nil _ _))
    | some s =>
      refine ⟨s, b, ?_⟩
      rw [← h, pathChars, Specializations.backwards, List.reverse_reverse]
  | cons name names ih =>
    have hname : ';' ∉ name.chars := name.not_mem (by decide)
    rw [pathChars, Specializations.backwards, List.reverse_append, List.reverse_reverse] at h
    obtain ⟨b', hb'⟩ := append_cons_eq_append h.symm hname
    split at hb'
    · exact absurd hb'.symm (List.append_ne_nil_of_right_ne_nil _ (List.cons_ne_nil _ _))
    · have hcolons : ';' ∉ [':', ':'] := by decide
      rw [List.reverse_cons, List.reverse_cons, List.append_assoc] at hb'
      obtain ⟨b'', hb''⟩ := append_cons_eq_append hb'.symm hcolons
      exact ih hb''

/-- The last character of a path belongs to an identifier or to the template arguments of a
    specialization. -/
theorem getLast?_pathChars {p : Path δ} {c : Char} (h : (pathChars D p).getLast? = some c) :
    c = '>' ∨ isIdentifierChar c := by
  rw [pathChars, List.getLast?_reverse] at h
  obtain ⟨names, root⟩ := p
  cases names with
  | nil =>
    cases root with
    | none => cases h
    | some s =>
      obtain ⟨cs, hcs⟩ := D.displayStringOf_reverse s
      rw [Specializations.backwards, hcs] at h
      exact .inl (Option.some.inj h).symm
  | cons name names =>
    right
    cases hname : name.chars.reverse with
    | nil => exact absurd (List.reverse_eq_nil_iff.1 hname) name.ne_nil
    | cons c' cs =>
      rw [Specializations.backwards, hname] at h
      obtain rfl := Option.some.inj h
      exact List.all_eq_true.mp name.plain c' (List.mem_reverse.1 (hname ▸ List.mem_cons_self))

/-- The quote of a character literal. -/
def quote : Char := byte 39

/-- Display strings are delimited if each semicolon in them stands behind a quote, as the
    character literal of a template argument does. -/
theorem delimited_of_quoted (h : ∀ s i, (D.displayStringOf s)[i]? = some ';' →
    0 < i ∧ (D.displayStringOf s)[i - 1]? = some quote) : Delimited D := by
  intro s p rest hs
  have hsemicolon : (D.displayStringOf s)[(pathChars D p).length]? = some ';' := by
    rw [hs, List.getElem?_append_right (le_refl _), Nat.sub_self, List.getElem?_cons_zero]
  obtain ⟨hpos, hquote⟩ := h s _ hsemicolon
  rw [hs, List.getElem?_append_left (Nat.sub_lt hpos Nat.one_pos), ← List.getLast?_eq_getElem?]
    at hquote
  -- Neither an identifier nor the arguments of a specialization end with a quote.
  rcases getLast?_pathChars hquote with heq | hplain
  · exact absurd heq (by decide)
  · exact absurd hplain (by decide)

/-- A name ends where a semicolon follows. -/
theorem pathChars_append_inj (hD : Delimited D) {p q : Path δ} {rest rest' : List Char}
    (h : pathChars D p ++ ';' :: rest = pathChars D q ++ ';' :: rest') : p = q ∧ rest = rest' := by
  -- Neither name is cut off the other one.
  have hcut (p q : Path δ) (e : List Char) (heq : pathChars D q = pathChars D p ++ ';' :: e) :
      False := by
    obtain ⟨s, e', hs⟩ := displayString_of_semicolon heq
    exact hD s p e' hs
  rcases List.append_eq_append_iff.1 h with ⟨e, heq, hrest⟩ | ⟨e, heq, hrest⟩
  · cases e with
    | nil =>
      rw [List.append_nil] at heq
      exact ⟨(pathChars_injective heq).symm, (List.cons.inj hrest).2⟩
    | cons x e =>
      obtain ⟨rfl, -⟩ := List.cons.inj hrest
      exact (hcut p q e heq).elim
  · cases e with
    | nil =>
      rw [List.append_nil] at heq
      exact ⟨pathChars_injective heq, (List.cons.inj hrest).2.symm⟩
    | cons x e =>
      obtain ⟨rfl, -⟩ := List.cons.inj hrest
      exact (hcut q p e heq).elim

theorem lifetimeByte_injective : Function.Injective lifetimeByte := by
  intro l l' h
  cases l <;> cases l' <;> first | rfl | exact absurd h (by decide)

/-- The bean name and the lifetime, at the end of what is hashed. -/
def suffix (beanName : String) (lifetime : Lifetime) : List Char :=
  beanName.toList ++ [';', lifetimeByte lifetime]

theorem suffix_inj {beanName beanName' : String} {lifetime lifetime' : Lifetime}
    (h : suffix beanName lifetime = suffix beanName' lifetime') :
    beanName = beanName' ∧ lifetime = lifetime' := by
  obtain ⟨hname, hlifetime⟩ := List.append_inj' h rfl
  refine ⟨String.toList_inj.1 hname, lifetimeByte_injective ?_⟩
  exact (List.cons.inj (List.cons.inj hlifetime).2).1

/-- The characters that are hashed. -/
def fed (D : Specializations δ) : Key δ → List Char
  | .type path beanName lifetime =>
    byte 0 :: (pathChars D path ++ ';' :: suffix beanName lifetime)
  | .product declaringFactory method beanName lifetime =>
    byte 1 :: (pathChars D ⟨method :: declaringFactory.names, declaringFactory.root⟩ ++
      ';' :: suffix beanName lifetime)
  | .exposedBase base concrete beanName lifetime =>
    byte 2 :: (pathChars D base ++ ';' :: (pathChars D concrete ++ ';' :: suffix beanName lifetime))

theorem fed_injective (hD : Delimited D) : Function.Injective (fed D) := by
  intro k k' h
  have h01 : byte 0 ≠ byte 1 := by decide
  have h02 : byte 0 ≠ byte 2 := by decide
  have h12 : byte 1 ≠ byte 2 := by decide
  -- The first byte tells the three kinds apart.
  cases k with
  | type path beanName lifetime =>
    cases k' with
    | type path' beanName' lifetime' =>
      obtain ⟨rfl, hsuffix⟩ := pathChars_append_inj hD (List.cons.inj h).2
      obtain ⟨rfl, rfl⟩ := suffix_inj hsuffix
      rfl
    | product => exact absurd (List.cons.inj h).1 h01
    | exposedBase => exact absurd (List.cons.inj h).1 h02
  | product declaringFactory method beanName lifetime =>
    cases k' with
    | type => exact absurd (List.cons.inj h).1 h01.symm
    | product declaringFactory' method' beanName' lifetime' =>
      obtain ⟨hpath, hsuffix⟩ := pathChars_append_inj hD (List.cons.inj h).2
      obtain ⟨rfl, rfl⟩ := suffix_inj hsuffix
      cases declaringFactory
      cases declaringFactory'
      simp_all
    | exposedBase => exact absurd (List.cons.inj h).1 h12
  | exposedBase base concrete beanName lifetime =>
    cases k' with
    | type => exact absurd (List.cons.inj h).1 h02.symm
    | product => exact absurd (List.cons.inj h).1 h12.symm
    | exposedBase base' concrete' beanName' lifetime' =>
      obtain ⟨rfl, hrest⟩ := pathChars_append_inj hD (List.cons.inj h).2
      obtain ⟨rfl, hsuffix⟩ := pathChars_append_inj hD hrest
      obtain ⟨rfl, rfl⟩ := suffix_inj hsuffix
      rfl

/-- The identity of a bean is the hash of its key. -/
theorem identity_eq (x : Bean δ) :
    identity F P x = (fed P.toSpecializations (key P x)).foldl F.mix F.seed := by
  cases x with
  | annotatedType type beanName lifetime =>
    simp [identity, Fnv.hashes, Fnv.computeIdentityForType, Fnv.fnv1a64, Fnv.fnv1a64Byte, key, fed,
      suffix, qualifiedNameOf_toList]
  | factory type =>
    simp [identity, Fnv.hashes, Fnv.computeIdentityForType, Fnv.fnv1a64, Fnv.fnv1a64Byte, key, fed,
      suffix, qualifiedNameOf_toList]
  | product declaringFactory method productType beanName lifetime =>
    simp [identity, Fnv.hashes, Fnv.computeIdentityForProduct, Fnv.fnv1a64, Fnv.fnv1a64Byte, key,
      fed, suffix, qualifiedNameOf_toList, methodName, pathChars_cons]
  | exposedBase base concrete beanName lifetime =>
    simp [identity, Fnv.hashes, Fnv.computeIdentityForExposedType, Fnv.fnv1a64, Fnv.fnv1a64Byte,
      key, fed, suffix, qualifiedNameOf_toList]

/-- Two beans have the same identity exactly if they agree in what is hashed. -/
theorem identity_eq_iff (hD : Delimited P.toSpecializations) {x y : Bean δ} :
    identity F P x = identity F P y ↔ key P x = key P y := by
  rw [identity_eq, identity_eq]
  exact F.injective.eq_iff.trans (fed_injective hD).eq_iff

/-! ## Programs -/

/-- What `discover<>()` finds, with the types as the program declares them. -/
inductive Entity (δ : Type*)
  | annotatedType (type : EnclosedType δ) (bases : List (EnclosedType δ)) (ann : AnnotationScan)
    (members : MemberScan)
  | factory (type : EnclosedType δ) (members : MemberScan)
  | factoryProduct (declaringFactory : EnclosedType δ) (method : ProducerMethod δ)
    (ann : AnnotationScan) (params : List Param) (productType : EnclosedType δ)
    (productAnn : AnnotationScan) (members : MemberScan)

/-- The entity with the qualified names of its types. -/
def Entity.discovered (P : Program δ) : Entity δ → DiscoveredEntity
  | .annotatedType type bases ann members =>
    .annotatedType (P.cppType type) (bases.map P.cppType) ann members
  | .factory type members => .factory (P.cppType type) members
  | .factoryProduct declaringFactory method ann params productType productAnn members =>
    .factoryProduct (P.cppType declaringFactory) (methodName method) ann params
      (P.cppType productType) productAnn members

/-- What identities are computed for. -/
def Entity.beans : Entity δ → List (Bean δ)
  | .annotatedType type bases ann _ =>
    .annotatedType type ann.beanName ann.lifetime ::
      bases.map fun base => .exposedBase base type ann.beanName ann.lifetime
  | .factory type _ => [.factory type]
  | .factoryProduct declaringFactory method ann _ productType _ _ =>
    [.product declaringFactory method productType ann.beanName ann.lifetime]

def beansOf (entities : List (Entity δ)) : List (Bean δ) := entities.flatMap Entity.beans

def contributionsOf (F : Fnv) (P : Program δ) (entities : List (Entity δ)) :
    List ContributedDescriptor :=
  makeAllDescriptors F.hashes (entities.map (Entity.discovered P))

variable {F} {entities : List (Entity δ)}

/-- The contribution of a bean; for a product, what phase 3.5 reads of it. -/
structure Describes (F : Fnv) (P : Program δ) (x : Bean δ) (cd : ContributedDescriptor) :
    Prop where
  identity : cd.identity = identity F P x
  product : ∀ declaringFactory method productType beanName lifetime,
    x = .product declaringFactory method productType beanName lifetime →
      cd.exposedType = P.cppType productType ∧ cd.beanName = beanName ∧
        cd.origin = .factoryProduct ∧
        cd.factoryMethodIdentity = some (Identities.identity F P (.factory declaringFactory))

theorem exists_contribution {x : Bean δ} (hx : x ∈ beansOf entities) :
    ∃ cd ∈ contributionsOf F P entities, cd.identity = identity F P x := by
  obtain ⟨e, he, hx⟩ := List.mem_flatMap.mp hx
  have hmem : ∀ cd, cd ∈ makeAllDescriptors F.hashes [e.discovered P] →
      cd ∈ contributionsOf F P entities := by
    intro cd hcd
    refine List.mem_flatMap.mpr ⟨e.discovered P, List.mem_map_of_mem he, ?_⟩
    simpa [makeAllDescriptors] using hcd
  cases e with
  | annotatedType type bases ann members =>
    rcases List.mem_cons.mp hx with rfl | hx
    · exact ⟨_, hmem _ List.mem_cons_self, rfl⟩
    · obtain ⟨base, hbase, rfl⟩ := List.mem_map.mp hx
      refine ⟨_, hmem _ (List.mem_cons_of_mem _ (List.mem_append_left _
        (List.mem_map_of_mem (List.mem_map_of_mem hbase)))), rfl⟩
  | factory type members =>
    obtain rfl := List.mem_singleton.mp hx
    exact ⟨_, hmem _ List.mem_cons_self, rfl⟩
  | factoryProduct declaringFactory method ann params productType productAnn members =>
    obtain rfl := List.mem_singleton.mp hx
    exact ⟨_, hmem _ List.mem_cons_self, rfl⟩

theorem exists_bean {cd : ContributedDescriptor} (hcd : cd ∈ contributionsOf F P entities) :
    ∃ x ∈ beansOf entities, Describes F P x cd := by
  obtain ⟨_, hentity, hcd⟩ := List.mem_flatMap.mp hcd
  obtain ⟨e, he, rfl⟩ := List.mem_map.mp hentity
  have hmem : ∀ x ∈ e.beans, x ∈ beansOf entities := fun x hx => List.mem_flatMap.mpr ⟨e, he, hx⟩
  cases e with
  | annotatedType type bases ann members =>
    rcases List.mem_cons.mp hcd with rfl | hcd
    · exact ⟨_, hmem _ List.mem_cons_self, rfl, nofun⟩
    · obtain ⟨_, hexposed, rfl⟩ := List.mem_map.mp hcd
      obtain ⟨base, hbase, rfl⟩ := List.mem_map.mp hexposed
      exact ⟨_, hmem _ (List.mem_cons_of_mem _ (List.mem_map_of_mem hbase)), rfl, nofun⟩
  | factory type members =>
    obtain rfl := List.mem_singleton.mp hcd
    exact ⟨_, hmem _ List.mem_cons_self, rfl, nofun⟩
  | factoryProduct declaringFactory method ann params productType productAnn members =>
    obtain rfl := List.mem_singleton.mp hcd
    refine ⟨_, hmem _ List.mem_cons_self, rfl, ?_⟩
    rintro _ _ _ _ _ ⟨⟩
    exact ⟨rfl, rfl, rfl, rfl⟩

/-! ## Identities tell beans apart -/

/-- The context has not been started, and has the contributions of the program. -/
structure Offers (F : Fnv) (P : Program δ) (entities : List (Entity δ)) (b : BeanContext) :
    Prop where
  reachable : b.Reachable
  started : b.core.started = false
  first : b.core.beanContextDescId = none
  pending : b.core.pending = contributionsOf F P entities

/-- Identities tell the beans of the program apart; so a start that succeeds has a descriptor
    for each of them, and it reports two producer methods of one factory for one type and name. -/
structure Separates (F : Fnv) (P : Program δ) (entities : List (Entity δ)) : Prop where
  identities : ∀ x ∈ beansOf entities, ∀ y ∈ beansOf entities,
    identity F P x = identity F P y → x = y
  kept : ∀ b, Offers F P entities b → b.start.failure = none →
    ∀ x ∈ beansOf entities, ∀ y ∈ beansOf entities, x ≠ y → ∃ id id', id ≠ id' ∧
      (mergeAndLink { registry := b.core }).state.identityMap.lookup (identity F P x) = some id ∧
      (mergeAndLink { registry := b.core }).state.identityMap.lookup (identity F P y) = some id'
  reported : ∀ b, Offers F P entities b →
    ∀ declaringFactory method method' productType beanName lifetime lifetime', method ≠ method' →
      .product declaringFactory method productType beanName lifetime ∈ beansOf entities →
      .product declaringFactory method' productType beanName lifetime' ∈ beansOf entities →
      ∃ text, b.start.failure = some (.configurationError text)

/-- The first contribution of a bean describes it, if identities tell beans apart. -/
theorem exists_first (hidentities : ∀ x ∈ beansOf entities, ∀ y ∈ beansOf entities,
    identity F P x = identity F P y → x = y) {x : Bean δ} (hx : x ∈ beansOf entities) :
    ∃ first ∈ newContributions [] (contributionsOf F P entities), Describes F P x first := by
  obtain ⟨cd, hcd, hidentity⟩ := exists_contribution (F := F) (P := P) hx
  obtain ⟨first, hfirst, heq⟩ := exists_mem_newContributions hcd List.not_mem_nil
  obtain ⟨y, hy, hdescribes⟩ := exists_bean (mem_of_mem_newContributions hfirst)
  obtain rfl := hidentities y hy x hx (hdescribes.identity.symm.trans (heq.trans hidentity))
  exact ⟨first, hfirst, hdescribes⟩

/-- Identities tell beans apart exactly if no two beans of the program have the same key. -/
theorem separates_iff (hD : Delimited P.toSpecializations) : Separates F P entities ↔
    ∀ x ∈ beansOf entities, ∀ y ∈ beansOf entities, key P x = key P y → x = y := by
  constructor
  · intro h x hx y hy hkey
    exact h.identities x hx y hy ((identity_eq_iff F hD).mpr hkey)
  · intro h
    have hidentities : ∀ x ∈ beansOf entities, ∀ y ∈ beansOf entities,
        identity F P x = identity F P y → x = y := fun x hx y hy heq =>
      h x hx y hy ((identity_eq_iff F hD).mp heq)
    refine ⟨hidentities, fun b hb hok x hx y hy hne => ?_, ?_⟩
    -- A start that succeeds has merged and linked, so every bean has its descriptor.
    · obtain ⟨hlink, -⟩ := hb.reachable.sound.start_eq hb.first hok
      obtain ⟨-, hplaced⟩ := placed_mergeAndLink hb.reachable.interned hlink
      obtain ⟨cd, hcd, hdescribes⟩ := exists_first hidentities hx
      obtain ⟨cd', hcd', hdescribes'⟩ := exists_first hidentities hy
      obtain ⟨id, _, hid, -⟩ := hplaced cd (hb.pending ▸ hcd)
      obtain ⟨id', _, hid', -⟩ := hplaced cd' (hb.pending ▸ hcd')
      rw [hdescribes.identity] at hid
      rw [hdescribes'.identity] at hid'
      refine ⟨id, id', ?_, hid, hid'⟩
      rintro rfl
      refine lookup_ne_of_identity_ne hb.reachable.interned hlink (fun heq => hne ?_) hid hid'
      exact hidentities x hx y hy heq
    · intro b hb declaringFactory method method' productType beanName lifetime lifetime' hmethods
        hx hy
      obtain ⟨cd, hcd, hdescribes⟩ := exists_first hidentities hx
      obtain ⟨cd', hcd', hdescribes'⟩ := exists_first hidentities hy
      obtain ⟨htype, hname, horigin, hfactory⟩ := hdescribes.product _ _ _ _ _ rfl
      obtain ⟨htype', hname', horigin', hfactory'⟩ := hdescribes'.product _ _ _ _ _ rfl
      refine BeanContext.reports_products hb.reachable hb.started hb.first (hb.pending ▸ hcd)
        (hb.pending ▸ hcd') (fun heq => hmethods ?_) (by rw [htype, htype']) (by rw [hname, hname'])
        horigin horigin' hfactory hfactory'
      -- Two products of one identity would be one bean.
      have hsame := hidentities _ hx _ hy
        (hdescribes.identity.symm.trans (heq.trans hdescribes'.identity))
      cases hsame
      rfl

/-! ## Overloaded producer methods -/

/-- A hash that writes the characters one after another, as digits. -/
def writeDigit (h : ℕ) (c : Char) : ℕ := h * 2097152 + (c.toNat + 1)

theorem foldl_writeDigit_injective :
    Function.Injective fun data : List Char => data.foldl writeDigit 0 := by
  -- The last character is the lowest digit.
  have hconcat : ∀ (l : List Char) (c : Char),
      (l ++ [c]).foldl writeDigit 0 = l.foldl writeDigit 0 * 2097152 + (c.toNat + 1) := by
    intro l c
    rw [List.foldl_append]
    rfl
  have hdigit : ∀ c : Char, c.toNat + 1 < 2097152 := by
    intro c
    have hvalid : c.toNat < 0xd800 ∨ 0xdfff < c.toNat ∧ c.toNat < 0x110000 := c.valid
    omega
  intro l l' h
  change l.foldl writeDigit 0 = l'.foldl writeDigit 0 at h
  induction l using List.reverseRecOn generalizing l' with
  | nil =>
    rcases List.eq_nil_or_concat l' with rfl | ⟨l', c', rfl⟩
    · rfl
    · rw [List.concat_eq_append, hconcat, List.foldl_nil] at h
      omega
  | append_singleton l c ih =>
    rcases List.eq_nil_or_concat l' with rfl | ⟨l', c', rfl⟩
    · rw [hconcat, List.foldl_nil] at h
      omega
    · rw [List.concat_eq_append, hconcat, hconcat] at h
      have hc := hdigit c
      have hc' := hdigit c'
      have hlast : c.toNat = c'.toNat := by omega
      have hrest : l.foldl writeDigit 0 = l'.foldl writeDigit 0 := by omega
      rw [List.concat_eq_append, ih hrest, Char.toNat_inj.mp hlast]

def digits : Fnv := ⟨writeDigit, 0, foldl_writeDigit_injective⟩

/-- `Rack<';'>`. -/
def racks : Specializations Unit where
  displayStringOf _ := ['R', 'a', 'c', 'k', '<', quote, ';', quote, '>']
  hasIdentifier _ := false
  displayStringOf_injective _ _ _ := rfl
  getLast?_displayStringOf _ := rfl

def rack : EnclosedType Unit := .specialization ()

def warehouse : EnclosedType Unit :=
  .named ⟨['W', 'a', 'r', 'e', 'h', 'o', 'u', 's', 'e'], by decide, by decide⟩ []

def crate : EnclosedType Unit := .named ⟨['C', 'r', 'a', 't', 'e'], by decide, by decide⟩ []

def storage : Program Unit where
  toSpecializations := racks
  types := {warehouse, rack, crate}
  typeIndex t := if t = warehouse then 0 else if t = rack then 1 else 2
  typeIndex_injOn := by
    rintro t (rfl | rfl | rfl) u (rfl | rfl | rfl) <;> simp [warehouse, rack, crate]

/-- The one semicolon is a character literal. -/
theorem delimited_racks : Delimited racks := by
  refine delimited_of_quoted fun s i hi => ?_
  have hquoted : ∀ i < 9, (racks.displayStringOf ())[i]? = some ';' →
      0 < i ∧ (racks.displayStringOf ())[i - 1]? = some quote := by decide
  exact hquoted i (List.getElem?_eq_some_iff.mp hi).1 hi

def pack (parameterTypes : List (EnclosedType Unit)) : ProducerMethod Unit where
  identifier := ⟨['p', 'a', 'c', 'k'], by decide, by decide⟩
  parameterTypes := parameterTypes

def unpack : ProducerMethod Unit where
  identifier := ⟨['u', 'n', 'p', 'a', 'c', 'k'], by decide, by decide⟩

/-- A factory with two of its methods, which make a `Crate`. -/
def producers (declaringFactory : EnclosedType Unit) (method method' : ProducerMethod Unit) :
    List (Entity Unit) :=
  [.factory declaringFactory {}, .factoryProduct declaringFactory method {} [] crate {} {},
    .factoryProduct declaringFactory method' {} [] crate {} {}]

theorem separates_pack_unpack : Separates digits storage (producers rack (pack []) unpack) :=
  (separates_iff delimited_racks).mpr (by decide)

/-- Two overloads that make the same type are taken for one bean: the start succeeds, and the
    table holds the factory, one product and the context bean. -/
theorem overloads_merged :
    ¬Separates digits storage (producers warehouse (pack []) (pack [warehouse])) ∧
      let b := BeanContext.initial.execAll
        [.discover (contributionsOf digits storage
          (producers warehouse (pack []) (pack [warehouse]))), .start]
      b.core.started = true ∧ b.core.descriptors.length = 3 := by
  refine ⟨fun h => ?_, by decide +kernel⟩
  have hsame := h.identities (.product warehouse (pack []) crate "" .singleton) (by decide)
    (.product warehouse (pack [warehouse]) crate "" .singleton) (by decide) (by decide)
  exact absurd hsame (by decide)

end Ctorium.Identities
