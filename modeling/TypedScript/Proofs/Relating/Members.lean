import TypedScript.Proofs.Relating.Families

/-!
# Members, calls and names in a family

Rules that go to declarations elsewhere, and those that match arguments with a signature.
-/
namespace TypedScript

/-- Two ways of checking on demand that are related. -/
structure Family.Demands (F : Family) (d d' : Demand) : Prop where
  function : ∀ x : Symbol, x.Fits F.Fits → F.Rel .plain ∅ (d.function x) (d'.function x)
  method : ∀ owner name, F.Rel .mild ∅ (d.method owner name) (d'.method owner name)
  keeps : d.Keeps Session.optionsContract

/-- Arguments whose checks are related. A type may be noted for a spread as a whole. -/
inductive Family.Arguments (F : Family) (noted : Bool) :
    Set NodeId → List Argument → List Argument → Prop
  | nil : Arguments F noted ∅ [] []
  | plain {I J : Set NodeId} {e : Expr} {c c' : Checker} {as as' : List Argument} :
    (∀ h, F.Rel .plain I (c h) (c' h)) → Arguments F noted J as as' →
    Arguments F noted (I ∪ J) (⟨⟨e, c⟩, false⟩ :: as) (⟨⟨e, c'⟩, false⟩ :: as')
  | spread {I J : Set NodeId} {e : Expr} {c c' : Checker} {as as' : List Argument} :
    F.Fits (if noted then .expr .plain e else .bare e) → (∀ h, F.Rel .plain I (c h) (c' h)) →
    Arguments F noted J as as' →
    Arguments F noted ((if noted then {e.id} else ∅) ∪ (I ∪ J))
      (⟨⟨e, c⟩, true⟩ :: as) (⟨⟨e, c'⟩, true⟩ :: as')

lemma Member.severity_refusal? {m : Member} {current : String} {d : Diagnostic}
    (h : m.refusal? current = some d) : d.severity = .error := by
  unfold refusal? at h
  split at h
  · cases h
  · cases h
    rfl

namespace Call

/-- Arguments at the same place with the same types. -/
structure Passed.Alike (p q : Passed) : Prop where
  place : p.argument.location = q.argument.location
  type : p.type = q.type
  parameter : p.parameter = q.parameter

variable {ps qs : List Passed}

lemma fitAll_congr (h : List.Forall₂ Passed.Alike ps qs) (s : Subst) (i : Nat) :
    fitAll s i ps = fitAll s i qs := by
  induction h generalizing i with
  | nil => rfl
  | cons h _ ih => rw [fitAll, fitAll, h.place, h.type, h.parameter, ih]

lemma bindings_congr (h : List.Forall₂ Passed.Alike ps qs) (place : Location) (sig : Signature)
    (explicit : Option Subst) : bindings place sig explicit ps = bindings place sig explicit qs := by
  have hmap : (ps.map fun p => (p.parameter, p.type)) = qs.map fun p => (p.parameter, p.type) := by
    induction h with
    | nil => rfl
    | cons h _ ih => rw [List.map_cons, List.map_cons, ih, h.parameter, h.type]
  rw [bindings, bindings, hmap]

end Call

namespace Family.Laws

variable {F : Family} (laws : F.Laws) {d d' : Demand} (hd : F.Demands d d')
include laws

/-! ## Members -/

include hd in
lemma settled (c : Class) (m : Member) (name : String) :
    F.Rel .mild ∅ (Member.settled d c m name) (Member.settled d' c m name) := by
  unfold Member.settled
  split
  · exact ite (laws.last (hd.method _ _) fun _ => (Check.Still.findIn? _ _).bind fun _ => .pure _)
      (laws.still (.pure _))
  · exact laws.still (.pure _)

include hd in
lemma ofClass (receiver : Option String) (c : Class) (field : Ident) :
    F.Rel .mild ∅ (Member.ofClass d receiver c field) (Member.ofClass d' receiver c field) := by
  refine laws.first (.findIn? _ _) fun m? => ?_
  split
  · exact laws.still (.notFound _ _)
  · refine laws.read fun s => ?_
    split
    · rename_i m _ refusal hrefusal
      exact laws.still (.failAt fun _ => by
        rw [Diagnostic.severity_withPrimary]
        exact Member.severity_refusal? hrefusal)
    · exact laws.first (.namesClass _) fun _ =>
        ite (laws.still (.invalidOperation _ _)) (laws.settled hd _ _ _)

include hd in
lemma typeWithin (limit : Nat) (receiver : Option String) (t : Ty) (field : Ident) :
    F.Rel .mild ∅ (Member.typeWithin d limit receiver t field)
      (Member.typeWithin d' limit receiver t field) := by
  induction limit generalizing receiver t with
  | zero => exact laws.still (.throw trivial)
  | succ limit ih =>
    refine laws.first (.deref _) fun u => ?_
    dsimp only
    generalize u.applied.1 = base
    cases base with
    | cls c => exact laws.last (laws.ofClass hd _ _ _) fun _ => .deref _
    | interface shape =>
      dsimp only
      split
      · exact laws.still (.notFound _ _)
      · exact laws.still ((Check.Still.deref _).bind fun _ => .pure _)
    | enum e =>
      dsimp only
      split
      · exact laws.still (.pure _)
      · exact laws.still (.notFound _ _)
    | nullable inner => exact laws.still (.refuseNull _ _)
    | union ms =>
      refine laws.last (laws.mapM ms fun m => ?_) fun _ => .pure _
      exact ite (laws.still (.refuseNull _ _)) (ih _ _)
    | prim | list | map | function | future | ref | param | generic =>
      refine laws.still (.ite (.pure _) (.read fun _ => ?_))
      split
      · exact .pure _
      · exact .notFound _ _

include hd in
lemma memberType (receiver : Option String) (t : Ty) (field : Ident) :
    F.Rel .mild ∅ (Member.typeOf d receiver t field) (Member.typeOf d' receiver t field) :=
  laws.first .unionDepth fun _ => laws.typeWithin hd _ _ _ _

include hd in
lemma optionalType (receiver : Option String) (t : Ty) (field : Ident) :
    F.Rel .mild ∅ (Member.optionalType d receiver t field)
      (Member.optionalType d' receiver t field) := by
  refine laws.first (.deref _) fun u => ?_
  dsimp only
  split
  case h_3 => exact laws.still (.pure _)
  all_goals
    refine laws.tryCatch (laws.map (laws.memberType hd _ _ _)) (fun e => ?_) fun _ => rfl
    split
    · split
      · exact .inr ⟨_, rfl⟩
      · exact .inl rfl
    · exact .inl rfl

include hd in
lemma targetType (receiver : Option String) (t : Ty) (field : Ident) :
    F.Rel .mild ∅ (Member.targetType d receiver t field)
      (Member.targetType d' receiver t field) := by
  refine laws.first (.deref _) fun u => ?_
  dsimp only
  split
  · refine laws.last (laws.ofClass hd _ _ _) fun m => ?_
    exact (Check.Still.isMethodOf _ _).bind fun _ => .ite (.refuse _ _ _ _ _)
      ((Check.Still.isWritable _).bind fun _ => .ite (.refuse _ _ _ _ _) (.deref _))
  · exact laws.memberType hd _ _ _

/-! ## Calls -/

variable {I J : Set NodeId} {noted : Bool} {args args' : List Argument}

lemma recordSpread {e : Expr} (he : F.Fits (if noted then .expr .plain e else .bare e)) (t : Ty) :
    F.Rel .plain (if noted then {e.id} else ∅) (Check.record e.id t) (Check.record e.id t) := by
  cases noted with
  | true => exact laws.record t (.inl he)
  | false => exact laws.mono (Set.empty_subset _) (laws.record t (.inr he))

/-- What is passed on differs in the checks of the arguments, so what follows is related for
lists that are alike. -/
lemma passAll {α : Type} (sig : Signature) (s : Subst) (ha : F.Arguments noted I args args')
    (i : Nat) {f g : List Call.Passed → Check α}
    (hf : ∀ ps qs, List.Forall₂ Call.Passed.Alike ps qs → F.Rel .plain J (f ps) (g qs)) :
    F.Rel .plain (I ∪ J) (Call.passAll sig s i args >>= f) (Call.passAll sig s i args' >>= g) := by
  induction ha generalizing i f g with
  | nil =>
    simp only [Call.passAll, pure_bind, Set.empty_union]
    exact hf [] [] .nil
  | plain hc _ ih =>
    simp only [Call.passAll, bind_assoc, pure_bind, Bool.false_eq_true, if_false]
    refine laws.first (.parameterAt _ _ _) fun p => laws.first (.deref _) fun p => ?_
    rw [Set.union_assoc]
    exact laws.bind (hc _) fun t => ih _ fun ps qs h => hf _ _ (.cons ⟨rfl, rfl, rfl⟩ h)
  | spread he hc _ ih =>
    simp only [Call.passAll, bind_assoc, pure_bind, if_true]
    refine laws.first (.parameterAt _ _ _) fun p => laws.first (.deref _) fun p => ?_
    refine laws.mono ?_ (laws.bind (hc _) fun t => laws.bind (laws.recordSpread he t) fun _ =>
      ih _ fun ps qs h => hf _ _ (.cons ⟨rfl, rfl, rfl⟩ h))
    intro i
    simp only [Set.mem_union]
    tauto

lemma apply (place : Location) (sig : Signature) (explicit : List Ty)
    (ha : F.Arguments noted I args args') :
    F.Rel .plain I (Call.apply place sig explicit args) (Call.apply place sig explicit args') := by
  have hlength : args'.length = args.length := by
    induction ha <;> simp_all
  unfold Call.apply
  rw [hlength]
  refine laws.first (.checkCount _ _ _) fun _ => laws.first (.explicitBindings _ _ _) fun σ => ?_
  rw [← Set.union_empty I]
  refine laws.passAll _ _ ha _ fun ps qs h => ?_
  simp only [Call.bindings_congr h, Call.fitAll_congr h]
  exact laws.still ((Check.Still.bindings _ _ _ _).bind fun _ => (Check.Still.fitAll _ _ _).bind
    fun _ => (Check.Still.deref _).bind fun _ => .pure _)

lemma checkAll (ha : F.Arguments false I args args') :
    F.Rel .plain I (Call.checkAll args) (Call.checkAll args') := by
  induction ha with
  | nil => exact laws.still (.pure _)
  | plain hc _ ih => exact laws.bind (hc _) fun _ => ih
  | spread _ hc _ ih => exact laws.mono (by simp) (laws.bind (hc _) fun _ => ih)

lemma callValue (place : Location) (callee : Ty) (explicit : List Ty)
    (ha : F.Arguments false I args args') :
    F.Rel .plain I (Call.value place callee explicit args)
      (Call.value place callee explicit args') := by
  unfold Call.value
  refine ite (laws.last (laws.checkAll ha) fun _ => .pure _) ?_
  split
  · exact laws.last (laws.apply _ _ _ ha) fun _ => .pure _
  · exact laws.fails I (.failAt fun _ => by simp) fun _ _ _ h => by cases h

lemma construct (place : Location) (name : Ident) (typeArgs : List Annotation) (expected : Hint)
    (ha : F.Arguments true I args args') :
    F.Rel .plain I (Call.construct place name typeArgs args expected)
      (Call.construct place name typeArgs args' expected) := by
  refine laws.first (.lookup? _) fun x? => laws.orFail fun _ =>
    laws.first (.classNamed? _) fun c? => ?_
  split
  · exact laws.fails I (.failAt fun _ => by simp) fun _ _ _ h => by cases h
  · refine laws.onlyIf (.invalidOperation _ _) fun _ => laws.first (.constructorOf _) fun sig =>
      laws.first (.meanings _) fun explicit => laws.last (laws.apply _ _ _ ha) fun _ => ?_
    exact .ite (.pure _) (.pure _)

lemma superConstructor (place : Location) {callee : Expr} (hcallee : F.Fits (.expr .opened callee))
    (ha : F.Arguments true I args args') :
    F.Rel .plain (insert callee.id I) (Call.superConstructor place callee.mark args)
      (Call.superConstructor place callee.mark args') := by
  refine laws.read fun s => laws.onlyIf (.misplaced _ _ _ _) fun _ =>
    laws.first (.superclass _) fun c => ?_
  exact laws.bind (laws.recordClass c hcallee) fun _ => laws.first (.constructorOf _) fun sig =>
    laws.last (laws.apply _ _ _ ha) fun _ => .pure _

/-! ## Names -/

include hd in
lemma nameValue (place : Location) (name : String) :
    F.Rel .plain ∅ (Name.value d place name) (Name.value d' place name) := by
  refine laws.read fun s => ?_
  split
  · exact laws.still (.pure _)
  · refine laws.lookup fun x? hx => ?_
    split
    · exact laws.still (.undefined _ _)
    · rename_i x
      split
      · exact laws.still (.pure _)
      · exact laws.still (.pure _)
      · exact ite (laws.last (hd.function x (hx x rfl)) fun _ => .ite (.invalidOperation _ _)
            ((Check.Still.currentType? _).bind fun _ => .deref _))
          (laws.still (.ite (.invalidOperation _ _)
            ((Check.Still.currentType? _).bind fun _ => .deref _)))

lemma nameTarget {m : Mark} {name : String} (h : F.Fits (.expr .plain (.ident m name))) :
    F.Rel .plain {m.id} (Name.target m name) (Name.target m name) := by
  refine laws.first (.lookup? _) fun x? => ?_
  split
  · exact laws.fails _ (.undefined _ _) fun _ _ _ h => by cases h
  · refine ite (laws.fails _ (.refuse _ _ _ _ _) fun _ _ _ h => by cases h)
      (ite (laws.fails _ (.refuse _ _ _ _ _) fun _ _ _ h => by cases h) ?_)
    exact laws.first (.deref _) fun t => laws.last (laws.record t (.inl h)) fun _ => .pure _

end Family.Laws

end TypedScript
