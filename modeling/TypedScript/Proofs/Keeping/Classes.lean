import TypedScript.Checking.Walk
import TypedScript.Proofs.Keeping.Declarations
import TypedScript.Proofs.Keeping.Statements

/-!
# What the rules of functions and classes keep

Four rules change the type of a symbol: a class is registered, an initial value gives a
field its type, and the results of functions and methods are found out. `StepLaws` asks of
a contract that it is kept by these, as a whole. The rules of classes and the checks on
demand are put together from them.

Where a contract bears every change of a type to one of the same heritage, it is kept by
the four rules.
-/
namespace TypedScript

/-- The checks of the parts of a class keep a contract. -/
structure ClassCheck.Keeps (R : Contract) (k : ClassCheck) : Prop where
  fields : ∀ f ∈ k.fields, ∀ value, f.2 = some value → value.Keeps R
  ctor : ∀ m, k.ctor = some m → m.2.Keeps R
  methods : ∀ m ∈ k.methods, m.2.Keeps R

/-- What the steps of a check and the registration of classes do for a contract. -/
structure DeclareLaws (R : Contract) : Prop extends BasicLaws R where
  declareClass (d : ClassDecl) : (Declare.cls d).Keeps R

/-- What the steps of a check and the rules that change the type of a symbol do for a
contract. Returns may be noted, or it does not matter what bodies note inside their
functions. -/
structure PartLaws (R : Contract) : Prop extends DeclareLaws R where
  function (f : Callable) {body : BodyCheck} : body.Keeps R → (Rule.function f body).Keeps R
  field {x : Symbol} (f : FieldDecl) (value : Option Part) : (R.typed → x.Canonical) →
    (∀ v, value = some v → v.Keeps R) → (Rule.field x f value).Keeps (R.given x.id x.heritage?)
  method (className : String) (m : Callable) {body : BodyCheck} : body.Keeps R →
    (Rule.method className m body).Keeps R
  bodies : NotingLaws R ∨ ∀ (d : Demand) (b : FunctionBody), d.Keeps R → (Walk.body d b).Keeps R

/-- What all steps of a check do for a contract. -/
structure StepLaws (R : Contract) : Prop extends PartLaws R, NotingLaws R where
  bodies := .inl toNotingLaws

namespace DeclareLaws

variable {R : Contract} (laws : DeclareLaws R)
include laws

lemma declareNode (n : Node) : (Declare.node n).Keeps R := by
  unfold Declare.node
  split
  · exact laws.declareClass _
  · exact laws.declareInterface _
  · exact laws.declareEnum _
  · exact laws.declareAlias _
  · exact laws.declareFunction _
  · exact laws.pure _

lemma declareAll (ns : List Node) : (Declare.all ns).Keeps R := by
  induction ns with
  | nil => exact laws.pure _
  | cons n ns ih => exact laws.bind (laws.reporting (laws.declareNode n)) fun _ _ => ih

end DeclareLaws

/-- A function gets another result, if its symbol may get another type that is no class. It need
not where the function is being inferred already. -/
lemma BasicLaws.functionRule {R : Contract} (laws : BasicLaws R) (f : Callable) {body : BodyCheck}
    (hb : body.Keeps R) (hretype : ∀ s x, R.Holds s → s.scopes.Has x →
      (x.origin.function?.any fun g => g.id == f.id) = true → s.isInferring f.id = true ∨
        ∀ sig : Signature, (R.typed → (Ty.function sig).Canonical) →
          (Check.retype x (.function sig)).Keeps (R.given x.id none)) :
    (Rule.function f body).Keeps R := by
  intro s hs
  refine Check.YieldsAt.lookup ?_ hs
  cases hlookup : s.scopes.lookup? f.name.name with
  | none => exact laws.pure _ s
  | some x =>
    have hhas := Scopes.has_of_lookup? hlookup
    have hx : R.typed → x.Canonical := fun htyped => (laws.canonical hs htyped).scopes x hhas
    have known := laws.given x.id x.heritage?
    dsimp only
    split
    · rename_i sig htype
      have hheritage : x.heritage? = none := by rw [Symbol.heritage?, htype]; rfl
      have hsig : R.typed → (Ty.function sig).Canonical := fun htyped => hx htyped _ htype
      split
      · rename_i hown
        obtain hbusy | hretype := hretype s x hs hhas hown
        · exact laws.onceBusy hbusy _
        · refine laws.knowing hhas (known.once _ ?_)
          refine known.bind (known.traceLine _ _) fun _ _ => known.bind (known.andThen
            (known.functionBody _ (hb.given _ _) hsig) fun _ => known.markChecked _) fun t ht => ?_
          refine .ite ?_ (known.pure _)
          rw [hheritage]
          exact hretype _ fun htyped => Signature.canonical_withResult (hsig htyped) (ht htyped)
      · exact laws.pure _ s
    · exact laws.pure _ s

namespace ClassLaws

variable {R : Contract} (laws : ClassLaws R)
include laws

lemma fieldValue (x : Symbol) {c : Class} (hc : R.typed → (Ty.cls c).Canonical) {m : Member}
    (hm : R.typed → m.type.Canonical) (f : FieldDecl) {value : Part} (hv : value.Keeps R) :
    (Rule.fieldValue x c m f value).Keeps (R.given x.id (some c.heritage)) := by
  have known := laws.given x.id (some c.heritage)
  have hvoid : R.typed → FunctionContext.Canonical
      { name := f.name.name, declared := some .void, isStatic := f.isStatic } := fun _ =>
    ⟨Hint.canonical_some.2 (Ty.canonical_prim _), List.forall_mem_nil _⟩
  refine known.bindIte (known.give fun _ => Hint.canonical_none)
    (known.map (known.derefCanonical hm) fun _ ht => Hint.canonical_some.2 ht) fun expected he =>
      known.during (.function _ hvoid) <| known.bind ((hv _ he).given _ _) fun t ht => ?_
  split
  · exact known.assignable _ _ _ _
  · exact known.bind (laws.retypeClass x rfl fun htyped =>
      Class.canonical_withProperty (hc htyped) (ht htyped)) fun _ _ => known.traceLine _ _

/-- The class of a symbol is read anew, or it is the one that was known before. -/
lemma field {x : Symbol} (f : FieldDecl) (value : Option Part) (hx : R.typed → x.Canonical)
    (hv : ∀ v, value = some v → v.Keeps R) :
    (Rule.field x f value).Keeps (R.given x.id x.heritage?) := by
  have known := laws.given x.id x.heritage?
  intro s hs
  refine known.bindOk (known.currentType? hx s) (fun t? t hrun ht? => ?_) hs
  have hcurrent : t = s ∧ R.Knows s x.id (t?.bind Ty.heritage?) := by
    cases hrun
    refine ⟨rfl, ?_⟩
    split
    · rename_i y hy
      obtain ⟨hhas, hid⟩ := Scopes.has_of_symbol? hy
      exact hid ▸ laws.learn hs.1 hhas
    · exact hs.2
  obtain ⟨rfl, hknows⟩ := hcurrent
  split
  · rename_i v c hclass
    obtain rfl := Ty.bind_class?_eq_some.1 hclass
    have hc : R.typed → (Ty.cls c).Canonical := fun htyped => ht? htyped _ rfl
    split
    · rename_i m hm
      have hm : R.typed → m.type.Canonical := fun htyped =>
        (Ty.canonical_cls.1 (hc htyped)).2.1 m (Class.mem_of_property? hm)
      exact fun ht => laws.fieldValue x hc hm f (hv v rfl) _ ⟨ht.1, hknows⟩
    · exact known.pure _ _
  · exact known.pure _ _

lemma patchMethod (className : String) (m : Member) {sig : Signature} {result : Ty}
    (ht : R.typed → (Ty.function (sig.withResult result)).Canonical) :
    (Rule.patchMethod className m sig result).Keeps R := by
  refine laws.lookup (laws.pure _) fun x hx => ?_
  dsimp only
  split
  · rename_i c htype
    have hheritage : x.heritage? = some c.heritage := by rw [Symbol.heritage?, htype]; rfl
    rw [hheritage]
    exact laws.retypeClass x rfl fun htyped =>
      Class.canonical_withMethod (hx htyped _ htype) (ht htyped)
  · exact (laws.pure _).given _ _

lemma method (className : String) (m : Callable) {body : BodyCheck} (hb : body.Keeps R) :
    (Rule.method className m body).Keeps R := by
  refine laws.bind (laws.classNamed? _) fun c? hc => ?_
  split
  · exact laws.pure _
  · rename_i member hmember
    split
    · rename_i sig htype
      have hsig : R.typed → (Ty.function sig).Canonical := by
        intro htyped
        obtain ⟨c, rfl, hm⟩ := Option.bind_eq_some_iff.1 hmember
        exact htype ▸ (Ty.canonical_cls.1 (hc htyped c rfl)).2.2.1 _ (Class.mem_of_method? hm)
      exact laws.once _ (laws.bind (laws.andThen (laws.functionBody _ hb hsig) fun _ =>
        laws.markChecked _) fun t ht => .ite (laws.patchMethod _ _ fun htyped =>
          Signature.canonical_withResult (hsig htyped) (ht htyped)) (laws.pure _))
    · exact laws.pure _

/-- Changes of types that keep the heritage are all that the rules of classes make. -/
lemma partLaws
    (hfunction : ∀ (f : Callable) {body : BodyCheck}, body.Keeps R →
      (Rule.function f body).Keeps R)
    (hbodies : NotingLaws R ∨ ∀ (d : Demand) (b : FunctionBody), d.Keeps R →
      (Walk.body d b).Keeps R) : PartLaws R where
  toBasicLaws := laws.toBasicLaws
  declareClass := laws.declareClass
  function := hfunction
  field := laws.field
  method className m _ := laws.method className m
  bodies := hbodies

end ClassLaws

/-- Changes of types that keep the heritage are all that the rules make. -/
lemma SymbolLaws.stepLaws {R : Contract} (laws : SymbolLaws R) : StepLaws R where
  toPartLaws := laws.classLaws.partLaws (fun f _ hb => laws.functionRule f hb fun _ x _ _ _ =>
    .inr fun _ ht => laws.retype x fun hs hknows => laws.update hs hknows ht)
    (.inl laws.toNotingLaws)
  addReturn := laws.addReturn

namespace PartLaws

variable {R : Contract} (laws : PartLaws R)
include laws

/-! ## Classes -/

lemma fields {x : Symbol} (hx : R.typed → x.Canonical) (fs : List (FieldDecl × Option Part))
    (hf : ∀ f ∈ fs, ∀ v, f.2 = some v → v.Keeps R) :
    (Rule.fields x fs).Keeps (R.given x.id x.heritage?) := by
  have known := laws.given x.id x.heritage?
  induction fs with
  | nil => exact known.pure _
  | cons f fs ih =>
    have ⟨hf, hfs⟩ := List.forall_mem_cons.1 hf
    exact known.bind (known.reporting (laws.field f.1 f.2 hx hf)) fun _ _ => ih hfs

lemma methods (className : String) (ms : List (Callable × BodyCheck))
    (hm : ∀ m ∈ ms, m.2.Keeps R) : (Rule.methods className ms).Keeps R := by
  induction ms with
  | nil => exact laws.pure _
  | cons m ms ih =>
    have ⟨hm, hms⟩ := List.forall_mem_cons.1 hm
    exact laws.bind (laws.reporting (laws.method className m.1 hm)) fun _ _ => ih hms

lemma cls {k : ClassCheck} (hk : k.Keeps R) : (Rule.cls k).Keeps R := by
  refine laws.lookup (laws.pure _) fun x hx => ?_
  have known := laws.given x.id x.heritage?
  dsimp only
  split
  · refine .ite (known.bind (known.traceLine _ _) fun _ _ => known.inClass _ <|
      known.bind (laws.fields hx _ hk.fields) fun _ _ => ?_) (known.pure _)
    have hmethods := fun name => (laws.methods name _ hk.methods).given x.id x.heritage?
    split
    · rename_i m body hm
      have hctor := fun name => (laws.constructor name m (hk.ctor (m, body) hm)).given
        x.id x.heritage?
      exact known.bind (known.reporting (hctor _)) fun _ _ => hmethods _
    · exact hmethods _
  · exact known.pure _

lemma classExpr {k : ClassCheck} (hk : k.Keeps R) : (Rule.classExpr k).Yields R Ty.Canonical := by
  refine laws.bind (laws.declareClass _) fun _ _ => laws.bind (laws.cls hk) fun _ _ =>
    laws.bind (laws.classNamed? _) fun c? hc => laws.give fun htyped => ?_
  cases c? with
  | none => exact Ty.canonical_prim _
  | some c => exact hc htyped c rfl

/-! ## Checks on demand -/

lemma functionOnDemand {bodyOf : Callable → BodyCheck} (hb : ∀ f, (bodyOf f).Keeps R)
    (x : Symbol) : (Rule.functionOnDemand bodyOf x).Keeps R := by
  unfold Rule.functionOnDemand
  split
  · exact laws.pure _
  · exact laws.reading fun _ _ => .ite (laws.pure _) <| laws.atHome _ <|
      laws.bind (laws.traceLine _ _) fun _ _ => laws.reporting (laws.function _ (hb _))

lemma methodOnDemand {bodyOf : Callable → BodyCheck} (hb : ∀ f, (bodyOf f).Keeps R)
    (owner name : String) : (Rule.methodOnDemand bodyOf owner name).Keeps R := by
  refine laws.bind (laws.lookup? _) fun x? _ => ?_
  split
  · exact laws.pure _
  · split
    · exact laws.pure _
    · refine laws.reading fun _ _ => .ite (laws.pure _) (laws.atHome _ ?_)
      split
      · exact laws.bind (laws.traceLine _ _) fun _ _ =>
          laws.reporting (laws.inClass _ (laws.method _ _ (hb _)))
      · exact laws.pure _

end PartLaws

end TypedScript
