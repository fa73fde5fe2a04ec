import TypedScript.Analysis
import TypedScript.Proofs.Keeping.Classes

/-!
# What the walk over a tree keeps

By induction on the tree every check keeps a relation that the steps keep. A relation that
notes no returns is kept by expressions, if it does not matter what the bodies in them do.

Checks on demand leave the tree at hand, so they are assumed to keep it, and then that is shown by
induction on how deep they are nested.

A property of sessions that lasts as long as the relation is kept lasts through both
passes of an analysis.
-/
namespace TypedScript

namespace Walk

variable {d : Demand}

/-- Parentheses around a target do not matter. -/
lemma target_unparen (place : Location) : (e : Expr) → target d place e.unparen = target d place e
  | .paren _ x => target_unparen place x
  | .literal .. | .template .. | .ident .. | .binary .. | .unary .. | .stepBefore ..
  | .stepAfter .. | .assign .. | .call .. | .construct .. | .select .. | .optionalSelect ..
  | .methodCall .. | .index .. | .await .. | .this .. | .super .. | .typeOf .. | .instanceOf ..
  | .range .. | .conditional .. | .coalesce .. | .nonNull .. | .matchExpr .. | .classExpr ..
  | .namelessClass .. | .list .. | .object .. | .arrow .. | .spread .. => rfl
termination_by structural e => e

lemma target_of_name? {e : Expr} {name : String} (place : Location) (h : e.name? = some name) :
    ∃ m, target d place e = Name.target m name := by
  rw [← target_unparen]
  unfold Expr.name? at h
  split at h
  · rename_i m name' heq
    obtain rfl := Option.some.inj h
    exact ⟨m, by rw [heq]; rfl⟩
  · cases h

end Walk

section

variable {R : Contract} {d : Demand}

mutual

theorem PartLaws.walkPart (laws : PartLaws R) (hd : d.Keeps R) :
    (e : Expr) → Part.Keeps R ⟨e, Walk.expr d e⟩
  | .literal m _ _ => fun _ _ =>
    laws.recorded m (laws.settle _ _ fun _ => Typing.canonical_literal _ _ _)
  | .template m parts => fun _ _ => laws.recorded m (laws.template _ (laws.walkParts hd parts))
  | .ident m _ => fun _ _ => laws.recorded m (laws.nameValue hd _ _)
  | .paren m x => fun _ hh => laws.recorded m (laws.walkPart hd x _ hh)
  | .binary m x _ y => fun _ _ =>
    laws.recorded m (.ite (laws.logical (laws.walkPart hd x) (laws.walkPart hd y) _ _)
      (laws.binary (laws.walkPart hd x) (laws.walkPart hd y) _ _))
  | .unary m _ x => fun _ hh => laws.recorded m (laws.unary (laws.walkPart hd x) _ _ hh)
  | .stepBefore m _ x => fun _ _ => laws.recorded m (laws.step _ _ (laws.walkTarget hd _ x))
  | .stepAfter m x _ => fun _ _ => laws.recorded m (laws.step _ _ (laws.walkTarget hd _ x))
  | .assign m x _ y => fun _ _ =>
    laws.recorded m (laws.assign (laws.walkPart hd y) _ _ _ (laws.walkTarget hd _ x)
      fun _ => Walk.target_of_name? _)
  | .call m f _ args => fun _ _ =>
    laws.recorded m (laws.call (laws.walkPart hd f) _ _ _ (laws.walkArguments hd args))
  | .construct m _ _ args => fun _ hh =>
    laws.recorded m (laws.construct _ _ _ _ hh (laws.walkArguments hd args))
  | .select m x _ => fun _ _ => laws.recorded m (laws.select hd (laws.walkPart hd x) _)
  | .optionalSelect m x _ => fun _ _ =>
    laws.recorded m (laws.optionalSelect hd (laws.walkPart hd x) _)
  | .methodCall m x _ _ args => fun _ _ =>
    laws.recorded m
      (laws.methodCall hd (laws.walkPart hd x) _ _ _ _ (laws.walkArguments hd args))
  | .index m x i => fun _ _ =>
    laws.recorded m (laws.index (laws.walkPart hd x) (laws.walkPart hd i) _)
  | .await m x => fun _ hh => laws.recorded m (laws.await (laws.walkPart hd x) _ hh)
  | .this m => fun _ _ => laws.recorded m (laws.this _)
  | .super m => fun _ _ => laws.recorded m (laws.map (laws.superclass _) fun _ hc => hc)
  | .typeOf m x => fun _ _ =>
    laws.recorded m (laws.template _ (List.forall_mem_singleton.2 (laws.walkPart hd x)))
  | .instanceOf m x _ => fun _ _ =>
    laws.recorded m <| laws.bind (laws.walkPart hd x _ fun _ => Hint.canonical_none) fun _ _ =>
      laws.bind (laws.demandClass _) fun _ _ => laws.give fun _ => Ty.canonical_prim _
  | .range m x y => fun _ _ =>
    laws.recorded m (laws.range (laws.walkPart hd x) (laws.walkPart hd y) _)
  | .conditional m c x y => fun _ hh =>
    laws.recorded m
      (laws.conditional (laws.walkPart hd c) (laws.walkPart hd x) (laws.walkPart hd y) hh)
  | .coalesce m x y => fun _ hh =>
    laws.recorded m (laws.coalesce (laws.walkPart hd x) (laws.walkPart hd y) hh)
  | .nonNull m x => fun _ hh => laws.recorded m (laws.nonNull (laws.walkPart hd x) hh)
  | .matchExpr m x as => fun _ hh =>
    laws.recorded m (laws.matching (laws.walkPart hd x) hh _ (laws.walkArms hd as))
  | .classExpr m c => fun _ _ => laws.recorded m (laws.classExpr (laws.walkClass hd c))
  | .namelessClass m => fun _ _ => laws.recorded m (laws.invalidOperation _ _)
  | .list m xs => fun _ hh => laws.recorded m (laws.list hh _ (laws.walkArguments hd xs))
  | .object m es => fun _ hh => laws.recorded m (laws.object hh _ _ (laws.walkEntries hd es))
  | .arrow m _ _ b _ => fun _ hh =>
    laws.recorded m (laws.arrow _ _ _ (laws.walkBody hd b) _ hh)
  | .spread m _ => fun _ _ => laws.recorded m (laws.misplaced _ _ _ _)
termination_by structural e => e

/-- The target of an assignment, of which only names, members and items are targets. -/
theorem PartLaws.walkTarget (laws : PartLaws R) (hd : d.Keeps R) (place : Location) :
    (e : Expr) → (Walk.target d place e).Yields R Ty.Canonical
  | .paren _ x => laws.walkTarget hd place x
  | .ident _ _ => laws.nameTarget _ _
  | .select m x _ => laws.recorded m (laws.selectTarget hd (laws.walkPart hd x) _)
  | .index m x i =>
    laws.recorded m (laws.index (laws.walkPart hd x) (laws.walkPart hd i) _)
  | .literal .. | .template .. | .binary .. | .unary .. | .stepBefore .. | .stepAfter ..
  | .assign .. | .call .. | .construct .. | .optionalSelect .. | .methodCall .. | .await ..
  | .this .. | .super .. | .typeOf .. | .instanceOf .. | .range .. | .conditional ..
  | .coalesce .. | .nonNull .. | .matchExpr .. | .classExpr .. | .namelessClass ..
  | .list .. | .object .. | .arrow .. | .spread .. => laws.refuse _ _ _ _ _
termination_by structural e => e

theorem PartLaws.walkParts (laws : PartLaws R) (hd : d.Keeps R) :
    (xs : List Expr) → ∀ p ∈ Walk.parts d xs, p.Keeps R
  | [] => List.forall_mem_nil _
  | x :: xs => List.forall_mem_cons.2 ⟨laws.walkPart hd x, laws.walkParts hd xs⟩
termination_by structural xs => xs

theorem PartLaws.walkPart? (laws : PartLaws R) (hd : d.Keeps R) :
    (x : Option Expr) → ∀ p, Walk.part? d x = some p → p.Keeps R
  | none => fun _ hp => nomatch hp
  | some x => fun _ hp => Option.some.inj hp ▸ laws.walkPart hd x
termination_by structural x => x

/-- Of a spread argument the operand is checked. -/
theorem PartLaws.walkArguments (laws : PartLaws R) (hd : d.Keeps R) :
    (xs : List Expr) → ∀ a ∈ Walk.arguments d xs, a.toPart.Keeps R
  | [] => List.forall_mem_nil _
  | .spread _ x :: xs => List.forall_mem_cons.2 ⟨laws.walkPart hd x, laws.walkArguments hd xs⟩
  | .literal .. :: xs | .template .. :: xs | .ident .. :: xs | .paren .. :: xs
  | .binary .. :: xs | .unary .. :: xs | .stepBefore .. :: xs | .stepAfter .. :: xs
  | .assign .. :: xs | .call .. :: xs | .construct .. :: xs | .select .. :: xs
  | .optionalSelect .. :: xs | .methodCall .. :: xs | .index .. :: xs | .await .. :: xs
  | .this .. :: xs | .super .. :: xs | .typeOf .. :: xs | .instanceOf .. :: xs
  | .range .. :: xs | .conditional .. :: xs | .coalesce .. :: xs | .nonNull .. :: xs
  | .matchExpr .. :: xs | .classExpr .. :: xs | .namelessClass .. :: xs | .list .. :: xs
  | .object .. :: xs | .arrow .. :: xs =>
    List.forall_mem_cons.2 ⟨laws.walkPart hd _, laws.walkArguments hd xs⟩
termination_by structural xs => xs

theorem PartLaws.walkArms (laws : PartLaws R) (hd : d.Keeps R) :
    (as : List MatchArm) → ∀ a ∈ Walk.arms d as, a.Keeps R
  | [] => List.forall_mem_nil _
  | .case p x :: as => List.forall_mem_cons.2
    ⟨⟨fun _ hq => Option.some.inj hq ▸ laws.walkPart hd p, laws.walkPart hd x⟩,
      laws.walkArms hd as⟩
  | .otherwise x :: as => List.forall_mem_cons.2
    ⟨⟨fun _ hq => (nomatch hq), laws.walkPart hd x⟩, laws.walkArms hd as⟩
termination_by structural as => as

theorem PartLaws.walkEntries (laws : PartLaws R) (hd : d.Keeps R) :
    (es : List ObjectEntry) → ∀ e ∈ Walk.entries d es, e.Keeps R
  | [] => List.forall_mem_nil _
  | .property _ x :: es => List.forall_mem_cons.2 ⟨laws.walkPart hd x, laws.walkEntries hd es⟩
  | .spread x :: es => List.forall_mem_cons.2 ⟨laws.walkPart hd x, laws.walkEntries hd es⟩
termination_by structural es => es

theorem PartLaws.walkBody (laws : PartLaws R) (hd : d.Keeps R) :
    (b : FunctionBody) → (Walk.body d b).Keeps R
  | .missing => laws.body fun _ _ => laws.pure _
  | .block b => laws.bodies.elim
    (fun noting => laws.body fun _ _ =>
      laws.bind (StepLaws.walkBlock ⟨laws, noting.addReturn⟩ hd b) fun _ _ => laws.checkFlow _ _ _)
    fun hbodies => hbodies d _ hd
  | .expr x => laws.bodies.elim
    (fun noting => laws.body fun _ _ => noting.exprBody (laws.walkPart hd x))
    fun hbodies => hbodies d _ hd
termination_by structural b => b

theorem PartLaws.walkCallable (laws : PartLaws R) (hd : d.Keeps R) :
    (f : Callable) → (Walk.callable d f).Keeps R
  | ⟨_, _, _, _, _, b, _, _, _, _⟩ => laws.walkBody hd b
termination_by structural f => f

theorem PartLaws.walkCallables (laws : PartLaws R) (hd : d.Keeps R) :
    (fs : List Callable) → ∀ m ∈ Walk.callables d fs, m.2.Keeps R
  | [] => List.forall_mem_nil _
  | f :: fs => List.forall_mem_cons.2 ⟨laws.walkCallable hd f, laws.walkCallables hd fs⟩
termination_by structural fs => fs

theorem PartLaws.walkCallable? (laws : PartLaws R) (hd : d.Keeps R) :
    (f : Option Callable) → ∀ m, Walk.callable? d f = some m → m.2.Keeps R
  | none => fun _ hm => nomatch hm
  | some f => fun _ hm => Option.some.inj hm ▸ laws.walkCallable hd f
termination_by structural f => f

theorem PartLaws.walkFields (laws : PartLaws R) (hd : d.Keeps R) :
    (fs : List FieldDecl) → ∀ f ∈ Walk.fields d fs, ∀ v, f.2 = some v → v.Keeps R
  | [] => List.forall_mem_nil _
  | ⟨_, _, value, _, _, _, _⟩ :: fs =>
    List.forall_mem_cons.2 ⟨laws.walkPart? hd value, laws.walkFields hd fs⟩
termination_by structural fs => fs

theorem PartLaws.walkClass (laws : PartLaws R) (hd : d.Keeps R) :
    (c : ClassDecl) → (Walk.cls d c).Keeps R
  | ⟨_, _, _, _, fs, methods, ctor, _, _⟩ =>
    ⟨laws.walkFields hd fs, laws.walkCallable? hd ctor, laws.walkCallables hd methods⟩
termination_by structural c => c

theorem StepLaws.walkBlock (laws : StepLaws R) (hd : d.Keeps R) :
    (b : Block) → (Walk.block d b).Keeps R
  | ⟨ns, _⟩ => laws.bind (laws.declareAll ns) fun _ _ => laws.walkNodes hd ns
termination_by structural b => b

theorem StepLaws.walkBlock? (laws : StepLaws R) (hd : d.Keeps R) :
    (b : Option Block) → ∀ c, Walk.block? d b = some c → c.Keeps R
  | none => fun _ hc => nomatch hc
  | some b => fun _ hc => Option.some.inj hc ▸ laws.walkBlock hd b
termination_by structural b => b

theorem StepLaws.walkClauses (laws : StepLaws R) (hd : d.Keeps R) :
    (cs : List SwitchClause) → ∀ c ∈ Walk.clauses d cs, c.Keeps R
  | [] => List.forall_mem_nil _
  | ⟨values, b⟩ :: cs => List.forall_mem_cons.2
    ⟨⟨laws.toPartLaws.walkParts hd values, laws.walkBlock hd b⟩, laws.walkClauses hd cs⟩
termination_by structural cs => cs

theorem StepLaws.walkNode (laws : StepLaws R) (hd : d.Keeps R) :
    (n : Node) → (Walk.node d n).Keeps R
  | .empty => laws.pure _
  | .block b => laws.during .scope (laws.walkBlock hd b)
  | .varDecl _ _ _ value _ => laws.varDecl _ _ _ _ _ (laws.toPartLaws.walkPart? hd value)
  | .exprStmt _ x => laws.map (laws.toPartLaws.walkPart hd x _ fun _ => Hint.canonical_none)
  | .ret _ value => laws.ret _ _ (laws.toPartLaws.walkPart? hd value)
  | .ifStmt _ c b .empty =>
    laws.ifStmt (laws.toPartLaws.walkPart hd c) (laws.walkBlock hd b) trivial
  | .ifStmt _ c b (.block n) =>
    laws.ifStmt (laws.toPartLaws.walkPart hd c) (laws.walkBlock hd b) (laws.walkBlock hd n)
  | .ifStmt _ c b (.varDecl ..) | .ifStmt _ c b (.exprStmt ..) | .ifStmt _ c b (.ret ..)
  | .ifStmt _ c b (.ifStmt ..) | .ifStmt _ c b (.whileLoop ..) | .ifStmt _ c b (.forLoop ..)
  | .ifStmt _ c b (.forOf ..) | .ifStmt _ c b (.switch ..) | .ifStmt _ c b (.breakStmt ..)
  | .ifStmt _ c b (.continueStmt ..) | .ifStmt _ c b (.throwStmt ..)
  | .ifStmt _ c b (.tryStmt ..) | .ifStmt _ c b (.function ..) | .ifStmt _ c b (.classDecl ..)
  | .ifStmt _ c b (.interfaceDecl ..) | .ifStmt _ c b (.enumDecl ..)
  | .ifStmt _ c b (.aliasDecl ..) | .ifStmt _ c b (.field ..) | .ifStmt _ c b (.method ..)
  | .ifStmt _ c b (.expr ..) | .ifStmt _ c b (.typeNode ..) =>
    laws.ifStmt (laws.toPartLaws.walkPart hd c) (laws.walkBlock hd b) (laws.walkNode hd _)
  | .whileLoop _ c b => laws.whileLoop (laws.toPartLaws.walkPart hd c) (laws.walkBlock hd b)
  | .forLoop _ init c post b =>
    laws.forLoop (laws.walkNode hd init) _ _ (laws.toPartLaws.walkPart? hd c)
      (laws.toPartLaws.walkPart? hd post) (laws.walkBlock hd b)
  | .forOf _ _ x b => laws.forOf _ (laws.toPartLaws.walkPart hd x) (laws.walkBlock hd b)
  | .switch _ x cs => laws.switch (laws.toPartLaws.walkPart hd x) _ (laws.walkClauses hd cs)
  | .breakStmt _ => laws.breakStmt _
  | .continueStmt _ => laws.continueStmt _
  | .throwStmt _ x => laws.map (laws.toPartLaws.walkPart hd x _ fun _ => Hint.canonical_none)
  | .tryStmt _ b _ handler final =>
    laws.tryStmt (laws.walkBlock hd b) _ _ _ (laws.walkBlock? hd handler)
      (laws.walkBlock? hd final)
  | .function f => laws.function _ (laws.toPartLaws.walkCallable hd f)
  | .classDecl c => laws.cls (laws.toPartLaws.walkClass hd c)
  | .interfaceDecl _ | .enumDecl _ | .aliasDecl _ => laws.pure _
  | .field _ | .method _ | .expr _ | .typeNode _ => laws.invalidOperation _ _
termination_by structural n => n

theorem StepLaws.walkNodes (laws : StepLaws R) (hd : d.Keeps R) :
    (ns : List Node) → (Walk.nodes d ns).Keeps R
  | [] => laws.pure _
  | n :: ns =>
    laws.bind (laws.reporting (laws.walkNode hd n)) fun _ _ => laws.walkNodes hd ns
termination_by structural ns => ns

end

/-- An expression under a hint. Where types do not matter the hint does not either. -/
theorem PartLaws.walkExpr (laws : PartLaws R) (hd : d.Keeps R) (e : Expr) (h : Hint)
    (hh : R.typed → h.Canonical := by exact False.elim) :
    (Walk.expr d e h).Yields R Ty.Canonical :=
  laws.walkPart hd e h hh

/-- A body without the function around it. -/
theorem StepLaws.walkChecked (laws : StepLaws R) (hd : d.Keeps R) (f : FunctionSpec)
    (declared : Hint) (b : FunctionBody) :
    (Rule.checkBody f declared (Walk.body d b)).Keeps R := by
  cases b with
  | missing => exact laws.pure _
  | block b => exact laws.bind (laws.walkBlock hd b) fun _ _ => laws.checkFlow _ _ _
  | expr x => exact laws.exprBody (laws.walkPart hd x)

/-- Checks on demand, however deep they are nested. -/
theorem PartLaws.demand (laws : PartLaws R) (limit : Nat) : (Walk.demand limit).Keeps R := by
  induction limit with
  | zero => exact ⟨fun _ => laws.endless, fun _ _ => laws.endless⟩
  | succ limit ih =>
    have hbody := fun f => laws.walkCallable ih f
    exact ⟨laws.functionOnDemand hbody, laws.methodOnDemand hbody⟩

end

/-! ## Both passes -/

/-- The property lasts through every run. -/
def Check.Preserves {α : Type} (P : Session → Prop) (c : Check α) : Prop := ∀ s, P s → P (c s).2

lemma Check.Preserves.bind {α β : Type} {P : Session → Prop} {c : Check α} {f : α → Check β}
    (hc : c.Preserves P) (hf : ∀ a, (f a).Preserves P) : (c >>= f).Preserves P := by
  intro s hs
  have hcs := hc s hs
  rw [run_bind]
  rcases hrun : c s with ⟨e | a, t⟩ <;> rw [hrun] at hcs
  · exact hcs
  · exact hf a t hcs

/-- The property lasts as long as the contract is kept, and in every phase. -/
structure Contract.Sustains (R : Contract) (P : Session → Prop) : Prop where
  holds {s : Session} : P s → R.Holds s
  after {s t : Session} : P s → R.Rel s t → P t
  phase {s : Session} (p : Phase) : P s → P { s with phase := p }

namespace Contract.Sustains

variable {R : Contract} {P : Session → Prop} (hP : R.Sustains P)
include hP

lemma preserves {α : Type} {Q : α → Prop} {c : Check α} (hc : c.Yields R Q) : c.Preserves P :=
  fun s hs => hP.after hs (hc s (hP.holds hs)).1

lemma advance (laws : BasicLaws R) (target : Phase) : (Analysis.advance target).Preserves P := by
  intro s hs
  rw [Analysis.advance, Check.run_bind, Check.run_get]
  dsimp only
  cases h : s.advance? (some target) with
  | none => exact hP.preserves (laws.traceLine _ _) s hs
  | some t =>
    have ht : P t := by
      unfold Session.advance? at h
      split at h
      · obtain rfl := Option.some.inj h
        exact hP.phase target hs
      · cases h
    exact hP.preserves (laws.traceLine _ _) t ht

lemma collect (laws : DeclareLaws R) (nodes : List Node) : (Analysis.collect nodes).Preserves P :=
  .bind (hP.preserves laws.file) fun _ => .bind (hP.preserves (laws.traceLine _ _)) fun _ =>
    .bind (hP.preserves (laws.declareAll nodes)) fun _ => hP.advance laws.toBasicLaws _

lemma check (laws : StepLaws R) (nodes : List Node) : (Analysis.check nodes).Preserves P :=
  .bind (hP.preserves laws.file) fun _ => .bind (hP.preserves (laws.traceLine _ _)) fun _ =>
    .bind (hP.preserves (laws.walkNodes (laws.demand _) nodes)) fun _ =>
      hP.advance laws.toBasicLaws _

lemma passes (laws : StepLaws R) (nodes : List Node) : (Analysis.passes nodes).Preserves P :=
  .bind (hP.collect laws.toDeclareLaws nodes) fun _ => .bind (hP.check laws nodes) fun _ =>
    .bind (hP.preserves laws.get) fun _ => hP.preserves (laws.traceLine _ _)

end Contract.Sustains

end TypedScript
