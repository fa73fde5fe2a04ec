import TypedScript.Proofs.Relating.Statements

/-!
# Trees in a family

By induction on the tree, every check keeps a family that all fragments of the tree fit.
-/
namespace TypedScript

/-- All of the fragments fit the family. -/
def Family.FitsAll (F : Family) (fs : List Fragment) : Prop := ∀ g ∈ fs, F.Fits g

namespace Family

variable {F : Family} {fs gs : List Fragment} {g : Fragment}

lemma fitsAll_cons : F.FitsAll (g :: fs) ↔ F.Fits g ∧ F.FitsAll fs := List.forall_mem_cons

lemma fitsAll_append : F.FitsAll (fs ++ gs) ↔ F.FitsAll fs ∧ F.FitsAll gs :=
  List.forall_mem_append

end Family

/-- A type is noted for a spread or not. -/
lemma Fragment.noted_spread (isNoted : Bool) (e : Expr) (fs : List Fragment) :
    noted ((if isNoted then .expr .plain e else .bare e) :: fs) =
      (if isNoted then {e.id} else ∅) ∪ noted fs := by
  cases isNoted with
  | true => exact noted_expr _ _ _
  | false => simp

lemma Walk.decl_cls (d : Demand) (c : ClassDecl) : (Walk.cls d c).decl = c := by
  cases c
  rfl

namespace Family.Laws

open Check (Still)
open Fragment (noted)

variable {F : Family} {d d' : Demand}

mutual

theorem walkExpr (laws : F.Laws) (hd : F.Demands d d') :
    (e : Expr) → (role : Role) → F.FitsAll (e.fragments true role) → ∀ h,
      F.At role (noted (e.fragments false role)) (Walk.expr d e h) (Walk.expr d' e h)
  | .literal m kind text, role, hfits, h => by
    simp only [Expr.fragments, fitsAll_cons, Fragment.noted_expr, Fragment.noted_nil] at hfits ⊢
    exact laws.noteAt hfits.1 (laws.still (.settle _ _ (Typing.refuses_literal _ _ _)))
  | .template m ps, role, hfits, h => by
    simp only [Expr.fragments, fitsAll_cons, Fragment.noted_expr] at hfits ⊢
    exact laws.noteAt hfits.1 (laws.template (walkParts laws hd ps hfits.2))
  | .ident m name, role, hfits, h => by
    simp only [Expr.fragments, fitsAll_cons, Fragment.noted_expr, Fragment.noted_nil] at hfits ⊢
    exact laws.noteAt hfits.1 (laws.nameValue hd _ _)
  | .paren m x, role, hfits, h => by
    simp only [Expr.fragments, fitsAll_cons, Fragment.noted_expr] at hfits ⊢
    exact laws.noteAt hfits.1 (walkExpr laws hd x .plain hfits.2 h)
  | .binary m x op y, role, hfits, h => by
    simp only [Expr.fragments, fitsAll_cons, fitsAll_append, Fragment.noted_expr,
      Fragment.noted_append] at hfits ⊢
    obtain ⟨he, hx, hy⟩ := hfits
    have hx := walkExpr laws hd x .plain hx
    have hy := walkExpr laws hd y .plain hy
    exact laws.noteAt he (ite (laws.logical hx hy _ _) (laws.binary hx hy _ _))
  | .unary m op x, role, hfits, h => by
    simp only [Expr.fragments, fitsAll_cons, Fragment.noted_expr] at hfits ⊢
    obtain ⟨he, hx⟩ := hfits
    by_cases hint : op = .minus ∧ x.isInteger
    · rw [if_pos hint, fitsAll_cons] at hx
      rw [if_pos hint, Fragment.noted_expr, Fragment.noted_map_bare]
      exact laws.noteAt he (laws.mono (by simp) (laws.unaryInteger _ hint.1 hint.2 hx.1 _))
    · rw [if_neg hint] at hx ⊢
      exact laws.noteAt he (laws.unary (walkExpr laws hd x .plain hx) _ hint _)
  | .stepBefore m op x, role, hfits, h => by
    simp only [Expr.fragments, fitsAll_cons, Fragment.noted_expr] at hfits ⊢
    exact laws.noteAt hfits.1 (laws.step _ _ (walkTarget laws hd _ x hfits.2))
  | .stepAfter m x op, role, hfits, h => by
    simp only [Expr.fragments, fitsAll_cons, Fragment.noted_expr] at hfits ⊢
    exact laws.noteAt hfits.1 (laws.step _ _ (walkTarget laws hd _ x hfits.2))
  | .assign m x op y, role, hfits, h => by
    simp only [Expr.fragments, fitsAll_cons, fitsAll_append, Fragment.noted_expr,
      Fragment.noted_append] at hfits ⊢
    obtain ⟨he, hx, hy⟩ := hfits
    exact laws.noteAt he (laws.assign (walkExpr laws hd y .plain hy) _ _ _
      (walkTarget laws hd _ x hx))
  | .call m f ts args, role, hfits, h => by
    simp only [Expr.fragments, fitsAll_cons, Fragment.noted_expr] at hfits ⊢
    obtain ⟨he, hrest⟩ := hfits
    by_cases hsuper : f.isSuper
    · rw [if_pos hsuper, fitsAll_cons, fitsAll_append] at hrest
      rw [if_pos hsuper, Fragment.noted_expr, Fragment.noted_append, Fragment.noted_map_bare,
        Set.empty_union]
      obtain ⟨hf, -, hargs⟩ := hrest
      exact laws.noteAt he (laws.callSuper _ _ hsuper hf (walkArguments laws hd true args hargs))
    · rw [if_neg hsuper, fitsAll_append] at hrest
      rw [if_neg hsuper, Fragment.noted_append]
      exact laws.noteAt he (laws.call _ _ hsuper (walkExpr laws hd f .opened hrest.1)
        (walkArguments laws hd false args hrest.2))
  | .construct m cls ts args, role, hfits, h => by
    simp only [Expr.fragments, fitsAll_cons, Fragment.noted_expr] at hfits ⊢
    exact laws.noteAt hfits.1 (laws.construct _ _ _ _ (walkArguments laws hd true args hfits.2))
  | .select m x field, role, hfits, h => by
    simp only [Expr.fragments, fitsAll_cons, Fragment.noted_expr] at hfits ⊢
    exact laws.noteAt hfits.1 (laws.select hd _ (walkExpr laws hd x .opened hfits.2))
  | .optionalSelect m x field, role, hfits, h => by
    simp only [Expr.fragments, fitsAll_cons, Fragment.noted_expr] at hfits ⊢
    exact laws.noteAt hfits.1 (laws.optionalSelect hd (walkExpr laws hd x .plain hfits.2) _)
  | .methodCall m x method ts args, role, hfits, h => by
    simp only [Expr.fragments, fitsAll_cons, fitsAll_append, Fragment.noted_expr,
      Fragment.noted_append] at hfits ⊢
    obtain ⟨he, hx, hargs⟩ := hfits
    exact laws.noteAt he (laws.methodCall hd _ _ _ (walkExpr laws hd x .opened hx)
      (walkArguments laws hd false args hargs))
  | .index m x i, role, hfits, h => by
    simp only [Expr.fragments, fitsAll_cons, fitsAll_append, Fragment.noted_expr,
      Fragment.noted_append] at hfits ⊢
    obtain ⟨he, hx, hi⟩ := hfits
    exact laws.noteAt he (laws.index _ (walkExpr laws hd x .opened hx)
      (walkExpr laws hd i .plain hi))
  | .await m x, role, hfits, h => by
    simp only [Expr.fragments, fitsAll_cons, Fragment.noted_expr] at hfits ⊢
    exact laws.noteAt hfits.1 (laws.await (walkExpr laws hd x .plain hfits.2) _ _)
  | .this m, role, hfits, h => by
    simp only [Expr.fragments, fitsAll_cons, Fragment.noted_expr, Fragment.noted_nil] at hfits ⊢
    exact laws.noteAt hfits.1 (laws.still (.this _))
  | .super m, role, hfits, h => by
    simp only [Expr.fragments, fitsAll_cons, Fragment.noted_expr, Fragment.noted_nil] at hfits ⊢
    exact laws.noteAt hfits.1 (laws.still (Still.superclass _).map)
  | .typeOf m x, role, hfits, h => by
    simp only [Expr.fragments, fitsAll_cons, Fragment.noted_expr] at hfits ⊢
    have hx : F.Parts _ [⟨x, Walk.expr d x⟩] [⟨x, Walk.expr d' x⟩] :=
      .cons (walkExpr laws hd x .plain hfits.2) .nil
    rw [Set.union_empty] at hx
    exact laws.noteAt hfits.1 (laws.template hx)
  | .instanceOf m x cls, role, hfits, h => by
    simp only [Expr.fragments, fitsAll_cons, Fragment.noted_expr] at hfits ⊢
    exact laws.noteAt hfits.1 (laws.last (walkExpr laws hd x .plain hfits.2 _) fun _ =>
      (Still.demandClass _).bind fun _ => .pure _)
  | .range m x y, role, hfits, h => by
    simp only [Expr.fragments, fitsAll_cons, fitsAll_append, Fragment.noted_expr,
      Fragment.noted_append] at hfits ⊢
    obtain ⟨he, hx, hy⟩ := hfits
    exact laws.noteAt he (laws.range (walkExpr laws hd x .plain hx) (walkExpr laws hd y .plain hy) _)
  | .conditional m c x y, role, hfits, h => by
    simp only [Expr.fragments, fitsAll_cons, fitsAll_append, Fragment.noted_expr,
      Fragment.noted_append] at hfits ⊢
    obtain ⟨he, hc, hx, hy⟩ := hfits
    exact laws.noteAt he (laws.conditional (walkExpr laws hd c .plain hc)
      (walkExpr laws hd x .plain hx) (walkExpr laws hd y .plain hy) _)
  | .coalesce m x y, role, hfits, h => by
    simp only [Expr.fragments, fitsAll_cons, fitsAll_append, Fragment.noted_expr,
      Fragment.noted_append] at hfits ⊢
    obtain ⟨he, hx, hy⟩ := hfits
    exact laws.noteAt he (laws.coalesce (walkExpr laws hd x .plain hx)
      (walkExpr laws hd y .plain hy) _)
  | .nonNull m x, role, hfits, h => by
    simp only [Expr.fragments, fitsAll_cons, Fragment.noted_expr] at hfits ⊢
    exact laws.noteAt hfits.1 (laws.nonNull (walkExpr laws hd x .plain hfits.2) _)
  | .matchExpr m x as, role, hfits, h => by
    simp only [Expr.fragments, fitsAll_cons, fitsAll_append, Fragment.noted_expr,
      Fragment.noted_append] at hfits ⊢
    obtain ⟨he, hx, has⟩ := hfits
    exact laws.noteAt he (laws.matching (walkExpr laws hd x .plain hx) _ (walkArms laws hd as has))
  | .classExpr m c, role, hfits, h => by
    simp only [Expr.fragments, fitsAll_cons, Fragment.noted_expr, if_true, Bool.false_eq_true,
      if_false, Fragment.noted_nil] at hfits ⊢
    exact laws.noteAt hfits.1 (laws.classExpr (walkClass laws hd c hfits.2)
      ((Walk.decl_cls d c).symm ▸ hfits.2))
  | .namelessClass m, role, hfits, h => by
    simp only [Expr.fragments, fitsAll_cons, Fragment.noted_expr, Fragment.noted_nil] at hfits ⊢
    exact laws.noteAt hfits.1 (laws.still (.invalidOperation _ _))
  | .list m xs, role, hfits, h => by
    simp only [Expr.fragments, fitsAll_cons, Fragment.noted_expr] at hfits ⊢
    exact laws.noteAt hfits.1 (laws.list _ (walkArguments laws hd true xs hfits.2))
  | .object m es, role, hfits, h => by
    simp only [Expr.fragments, fitsAll_cons, Fragment.noted_expr] at hfits ⊢
    exact laws.noteAt hfits.1 (laws.object _ _ (walkEntries laws hd es hfits.2))
  | .arrow m ps result b isAsync, role, hfits, h => by
    simp only [Expr.fragments, fitsAll_cons, Fragment.noted_expr] at hfits ⊢
    exact laws.noteAt hfits.1 (laws.arrow _ _ _ _ _ (walkBody laws hd b hfits.2))
  | .spread m x, role, hfits, h => by
    simp only [Expr.fragments, fitsAll_cons, Fragment.noted_expr, Fragment.noted_nil] at hfits ⊢
    exact laws.noteAt hfits.1 (laws.still (.misplaced _ _ _ _))
termination_by structural e => e

/-- Of the forms of expression only names, members and items are targets. -/
theorem walkTarget (laws : F.Laws) (hd : F.Demands d d') (place : Location) :
    (e : Expr) → F.FitsAll (e.targetFragments true) →
      F.Rel .plain (noted (e.targetFragments false)) (Walk.target d place e)
        (Walk.target d' place e)
  | .paren m x, hfits => by
    simp only [Expr.targetFragments, fitsAll_cons, Fragment.noted_bare] at hfits ⊢
    exact walkTarget laws hd place x hfits.2
  | .ident m name, hfits => by
    simp only [Expr.targetFragments, fitsAll_cons, Fragment.noted_expr, Fragment.noted_nil,
      insert_empty_eq] at hfits ⊢
    exact laws.nameTarget hfits.1
  | .select m x field, hfits => by
    simp only [Expr.targetFragments, fitsAll_cons, Fragment.noted_expr] at hfits ⊢
    exact laws.noteAt hfits.1 (laws.selectTarget hd _ (walkExpr laws hd x .opened hfits.2))
  | .index m x i, hfits => by
    simp only [Expr.targetFragments, fitsAll_cons, fitsAll_append, Fragment.noted_expr,
      Fragment.noted_append] at hfits ⊢
    obtain ⟨he, hx, hi⟩ := hfits
    exact laws.noteAt he (laws.index _ (walkExpr laws hd x .opened hx)
      (walkExpr laws hd i .plain hi))
  | .literal .., _ | .template .., _ | .binary .., _ | .unary .., _ | .stepBefore .., _
  | .stepAfter .., _ | .assign .., _ | .call .., _ | .construct .., _ | .optionalSelect .., _
  | .methodCall .., _ | .await .., _ | .this .., _ | .super .., _ | .typeOf .., _
  | .instanceOf .., _ | .range .., _ | .conditional .., _ | .coalesce .., _ | .nonNull .., _
  | .matchExpr .., _ | .classExpr .., _ | .namelessClass .., _ | .list .., _ | .object .., _
  | .arrow .., _ | .spread .., _ => by
    simp only [Expr.targetFragments, Fragment.noted_bare, Fragment.noted_nil]
    exact laws.still (.refuse _ _ _ _ _)
termination_by structural e => e

theorem walkParts (laws : F.Laws) (hd : F.Demands d d') :
    (xs : List Expr) → F.FitsAll (Expr.fragmentsIn true xs) →
      F.Parts (noted (Expr.fragmentsIn false xs)) (Walk.parts d xs) (Walk.parts d' xs)
  | [], _ => by
    simp only [Expr.fragmentsIn, Fragment.noted_nil]
    exact .nil
  | x :: xs, hfits => by
    simp only [Expr.fragmentsIn, fitsAll_append, Fragment.noted_append] at hfits ⊢
    exact .cons (walkExpr laws hd x .plain hfits.1) (walkParts laws hd xs hfits.2)
termination_by structural xs => xs

theorem walkPart? (laws : F.Laws) (hd : F.Demands d d') :
    (x : Option Expr) → F.FitsAll (Expr.fragmentsIn? true x) →
      F.Part? (noted (Expr.fragmentsIn? false x)) (Walk.part? d x) (Walk.part? d' x)
  | none, _ => by
    simp only [Expr.fragmentsIn?, Fragment.noted_nil]
    exact .none
  | some x, hfits => .some (walkExpr laws hd x .plain hfits)
termination_by structural x => x

/-- Of a spread argument the operand is checked. -/
theorem walkArguments (laws : F.Laws) (hd : F.Demands d d') (isNoted : Bool) :
    (xs : List Expr) → F.FitsAll (Expr.argumentFragments true isNoted xs) →
      F.Arguments isNoted (noted (Expr.argumentFragments false isNoted xs)) (Walk.arguments d xs)
        (Walk.arguments d' xs)
  | [], _ => by
    simp only [Expr.argumentFragments, Fragment.noted_nil]
    exact .nil
  | .spread m x :: xs, hfits => by
    simp only [Expr.argumentFragments, fitsAll_cons, fitsAll_append, Fragment.noted_spread,
      Fragment.noted_append] at hfits ⊢
    obtain ⟨he, hx, hxs⟩ := hfits
    exact .spread he (walkExpr laws hd x .plain hx) (walkArguments laws hd isNoted xs hxs)
  | .literal .. :: xs, hfits | .template .. :: xs, hfits | .ident .. :: xs, hfits
  | .paren .. :: xs, hfits | .binary .. :: xs, hfits | .unary .. :: xs, hfits
  | .stepBefore .. :: xs, hfits | .stepAfter .. :: xs, hfits | .assign .. :: xs, hfits
  | .call .. :: xs, hfits | .construct .. :: xs, hfits | .select .. :: xs, hfits
  | .optionalSelect .. :: xs, hfits | .methodCall .. :: xs, hfits | .index .. :: xs, hfits
  | .await .. :: xs, hfits | .this .. :: xs, hfits | .super .. :: xs, hfits
  | .typeOf .. :: xs, hfits | .instanceOf .. :: xs, hfits | .range .. :: xs, hfits
  | .conditional .. :: xs, hfits | .coalesce .. :: xs, hfits | .nonNull .. :: xs, hfits
  | .matchExpr .. :: xs, hfits | .classExpr .. :: xs, hfits | .namelessClass .. :: xs, hfits
  | .list .. :: xs, hfits | .object .. :: xs, hfits | .arrow .. :: xs, hfits => by
    simp only [Expr.argumentFragments, fitsAll_append, Fragment.noted_append] at hfits ⊢
    exact .plain (walkExpr laws hd _ .plain hfits.1) (walkArguments laws hd isNoted xs hfits.2)
termination_by structural xs => xs

theorem walkArms (laws : F.Laws) (hd : F.Demands d d') :
    (as : List MatchArm) → F.FitsAll (MatchArm.fragmentsIn true as) →
      F.Arms (noted (MatchArm.fragmentsIn false as)) (Walk.arms d as) (Walk.arms d' as)
  | [], _ => by
    simp only [MatchArm.fragmentsIn, Fragment.noted_nil]
    exact .nil
  | .case p x :: as, hfits => by
    simp only [MatchArm.fragmentsIn, fitsAll_append, Fragment.noted_append, apply_ite noted,
      Fragment.noted_nil] at hfits ⊢
    obtain ⟨hp, hx, has⟩ := hfits
    refine .case (fun hwild => ?_) (walkExpr laws hd x .plain hx) (walkArms laws hd as has)
    rw [if_neg hwild] at hp
    exact walkExpr laws hd p .plain hp
  | .otherwise x :: as, hfits => by
    simp only [MatchArm.fragmentsIn, fitsAll_append, Fragment.noted_append] at hfits ⊢
    exact .otherwise (walkExpr laws hd x .plain hfits.1) (walkArms laws hd as hfits.2)
termination_by structural as => as

theorem walkEntries (laws : F.Laws) (hd : F.Demands d d') :
    (es : List ObjectEntry) → F.FitsAll (ObjectEntry.fragmentsIn true es) →
      F.Entries (noted (ObjectEntry.fragmentsIn false es)) (Walk.entries d es) (Walk.entries d' es)
  | [], _ => by
    simp only [ObjectEntry.fragmentsIn, Fragment.noted_nil]
    exact .nil
  | .property key x :: es, hfits => by
    simp only [ObjectEntry.fragmentsIn, fitsAll_append, Fragment.noted_append] at hfits ⊢
    exact .property (walkExpr laws hd x .plain hfits.1) (walkEntries laws hd es hfits.2)
  | .spread x :: es, hfits => by
    simp only [ObjectEntry.fragmentsIn, fitsAll_append, Fragment.noted_append] at hfits ⊢
    exact .spread (walkExpr laws hd x .plain hfits.1) (walkEntries laws hd es hfits.2)
termination_by structural es => es

theorem walkBody (laws : F.Laws) (hd : F.Demands d d') :
    (b : FunctionBody) → F.FitsAll (b.fragments true) →
      F.Body (noted (b.fragments false)) (Walk.body d b) (Walk.body d' b)
  | .missing, _ => by
    simp only [FunctionBody.fragments, Fragment.noted_nil]
    exact .missing
  | .block b, hfits => .block b (walkBlock laws hd b hfits)
  | .expr x, hfits => .expr (walkExpr laws hd x .plain hfits)
termination_by structural b => b

theorem walkOnce (laws : F.Laws) (hd : F.Demands d d') :
    (f : Callable) → F.FitsAll (f.fragments true) →
      F.Once f (Walk.callable d f) (Walk.callable d' f)
  | ⟨_, _, _, _, _, b, _, _, _, _⟩, hfits => by
    simp only [Callable.fragments, fitsAll_cons] at hfits
    exact laws.once hfits.1 fun spec => laws.functionBody spec (walkBody laws hd b hfits.2)
termination_by structural f => f

theorem walkMethods (laws : F.Laws) (hd : F.Demands d d') :
    (fs : List Callable) → F.FitsAll (Callable.fragmentsIn true fs) →
      F.Methods (Walk.callables d fs) (Walk.callables d' fs)
  | [], _ => .nil
  | f :: fs, hfits => by
    simp only [Callable.fragmentsIn, fitsAll_append] at hfits
    exact .cons (walkOnce laws hd f hfits.1) (walkMethods laws hd fs hfits.2)
termination_by structural fs => fs

theorem walkConstructor (laws : F.Laws) (hd : F.Demands d d') :
    (f : Option Callable) → F.FitsAll (Callable.fragmentsIn? true f) →
      F.Constructor (Walk.callable? d f) (Walk.callable? d' f)
  | none, _ => .none
  | some f, hfits => .some (walkOnce laws hd f hfits)
termination_by structural f => f

theorem walkFields (laws : F.Laws) (hd : F.Demands d d') :
    (fs : List FieldDecl) → F.FitsAll (FieldDecl.fragmentsIn true fs) →
      F.Fields (Walk.fields d fs) (Walk.fields d' fs)
  | [], _ => .nil
  | ⟨_, _, value, _, _, _, _⟩ :: fs, hfits => by
    simp only [FieldDecl.fragmentsIn, fitsAll_append] at hfits
    exact .cons (walkPart? laws hd value hfits.1) (walkFields laws hd fs hfits.2)
termination_by structural fs => fs

theorem walkClass (laws : F.Laws) (hd : F.Demands d d') :
    (c : ClassDecl) → F.FitsAll (c.fragments true) → F.Classes (Walk.cls d c) (Walk.cls d' c)
  | ⟨_, _, _, _, fs, methods, ctor, _, _⟩, hfits => by
    simp only [ClassDecl.fragments, fitsAll_append] at hfits
    obtain ⟨hfields, hctor, hmethods⟩ := hfits
    exact ⟨rfl, walkFields laws hd fs hfields, walkConstructor laws hd ctor hctor,
      walkMethods laws hd methods hmethods⟩
termination_by structural c => c

theorem walkBlock (laws : F.Laws) (hd : F.Demands d d') :
    (b : Block) → F.FitsAll (b.fragments true) →
      F.Rel .plain (noted (b.fragments false)) (Walk.block d b) (Walk.block d' b)
  | ⟨ns, _⟩, hfits =>
    laws.first (.declareAll hfits) fun _ => walkNodes laws hd ns hfits
termination_by structural b => b

theorem walkBlock? (laws : F.Laws) (hd : F.Demands d d') :
    (b : Option Block) → F.FitsAll (Block.fragmentsIn? true b) →
      F.Check? (noted (Block.fragmentsIn? false b)) (Walk.block? d b) (Walk.block? d' b)
  | none, _ => by
    simp only [Block.fragmentsIn?, Fragment.noted_nil]
    exact .none
  | some b, hfits => .some (walkBlock laws hd b hfits)
termination_by structural b => b

theorem walkClauses (laws : F.Laws) (hd : F.Demands d d') :
    (cs : List SwitchClause) → F.FitsAll (SwitchClause.fragmentsIn true cs) →
      F.Clauses (noted (SwitchClause.fragmentsIn false cs)) (Walk.clauses d cs)
        (Walk.clauses d' cs)
  | [], _ => by
    simp only [SwitchClause.fragmentsIn, Fragment.noted_nil]
    exact .nil
  | ⟨values, b⟩ :: cs, hfits => by
    simp only [SwitchClause.fragmentsIn, fitsAll_append, Fragment.noted_append] at hfits ⊢
    obtain ⟨hvalues, hb, hcs⟩ := hfits
    exact .cons (walkParts laws hd values hvalues) (walkBlock laws hd b hb)
      (walkClauses laws hd cs hcs)
termination_by structural cs => cs

theorem walkNode (laws : F.Laws) (hd : F.Demands d d') :
    (n : Node) → F.FitsAll (n.fragments true) →
      F.Rel .plain (noted (n.fragments false)) (Walk.node d n) (Walk.node d' n)
  | .empty, _ => by
    simp only [Node.fragments, Fragment.noted_nil]
    exact laws.still (.pure _)
  | .block b, hfits => laws.during .scope (walkBlock laws hd b hfits)
  | .varDecl _ _ _ value _, hfits => laws.varDecl _ _ _ _ (walkPart? laws hd value hfits)
  | .exprStmt _ x, hfits => laws.map (walkExpr laws hd x .plain hfits _)
  | .ret _ value, hfits => laws.ret _ (walkPart? laws hd value hfits)
  | .ifStmt _ c b .empty, hfits => by
    simp only [Node.fragments, fitsAll_append, Fragment.noted_append, Fragment.noted_nil] at hfits ⊢
    exact laws.ifStmt (walkExpr laws hd c .plain hfits.1) (walkBlock laws hd b hfits.2.1) .none
  | .ifStmt _ c b (.block n), hfits => by
    simp only [Node.fragments, fitsAll_append, Fragment.noted_append] at hfits ⊢
    exact laws.ifStmt (walkExpr laws hd c .plain hfits.1) (walkBlock laws hd b hfits.2.1)
      (.block (walkBlock laws hd n hfits.2.2))
  | .ifStmt _ c b (.varDecl ..), hfits | .ifStmt _ c b (.exprStmt ..), hfits
  | .ifStmt _ c b (.ret ..), hfits | .ifStmt _ c b (.ifStmt ..), hfits
  | .ifStmt _ c b (.whileLoop ..), hfits | .ifStmt _ c b (.forLoop ..), hfits
  | .ifStmt _ c b (.forOf ..), hfits | .ifStmt _ c b (.switch ..), hfits
  | .ifStmt _ c b (.breakStmt ..), hfits | .ifStmt _ c b (.continueStmt ..), hfits
  | .ifStmt _ c b (.throwStmt ..), hfits | .ifStmt _ c b (.tryStmt ..), hfits
  | .ifStmt _ c b (.function ..), hfits | .ifStmt _ c b (.classDecl ..), hfits
  | .ifStmt _ c b (.interfaceDecl ..), hfits | .ifStmt _ c b (.enumDecl ..), hfits
  | .ifStmt _ c b (.aliasDecl ..), hfits | .ifStmt _ c b (.field ..), hfits
  | .ifStmt _ c b (.method ..), hfits | .ifStmt _ c b (.expr ..), hfits
  | .ifStmt _ c b (.typeNode ..), hfits => by
    rw [Node.fragments, fitsAll_append, fitsAll_append] at hfits
    rw [Node.fragments, Fragment.noted_append, Fragment.noted_append]
    exact laws.ifStmt (walkExpr laws hd c .plain hfits.1) (walkBlock laws hd b hfits.2.1)
      (.node (walkNode laws hd _ hfits.2.2))
  | .whileLoop _ c b, hfits => by
    simp only [Node.fragments, fitsAll_append, Fragment.noted_append] at hfits ⊢
    exact laws.whileLoop (walkExpr laws hd c .plain hfits.1) (walkBlock laws hd b hfits.2)
  | .forLoop _ init c post b, hfits => by
    simp only [Node.fragments, fitsAll_append, Fragment.noted_append] at hfits ⊢
    obtain ⟨hinit, hc, hb, hpost⟩ := hfits
    exact laws.forLoop (walkNode laws hd init hinit) (walkPart? laws hd c hc)
      (walkBlock laws hd b hb) (walkPart? laws hd post hpost)
  | .forOf _ var x b, hfits => by
    simp only [Node.fragments, fitsAll_append, Fragment.noted_append] at hfits ⊢
    exact laws.forOf _ (walkExpr laws hd x .opened hfits.1) (walkBlock laws hd b hfits.2)
  | .switch _ x cs, hfits => by
    simp only [Node.fragments, fitsAll_append, Fragment.noted_append] at hfits ⊢
    exact laws.switch (walkExpr laws hd x .plain hfits.1) (walkClauses laws hd cs hfits.2)
  | .breakStmt _, _ => by
    simp only [Node.fragments, Fragment.noted_nil]
    exact laws.still (.breakStmt _)
  | .continueStmt _, _ => by
    simp only [Node.fragments, Fragment.noted_nil]
    exact laws.still (.continueStmt _)
  | .throwStmt _ x, hfits => laws.map (walkExpr laws hd x .plain hfits _)
  | .tryStmt _ b param handler final, hfits => by
    simp only [Node.fragments, fitsAll_append, Fragment.noted_append] at hfits ⊢
    obtain ⟨hb, hhandler, hfinal⟩ := hfits
    exact laws.tryStmt param (walkBlock laws hd b hb) (walkBlock? laws hd handler hhandler)
      (walkBlock? laws hd final hfinal)
  | .function f, hfits => by
    simp only [Node.fragments, if_true, Bool.false_eq_true, if_false, Fragment.noted_nil] at hfits ⊢
    exact laws.function f (walkOnce laws hd f hfits)
  | .classDecl c, hfits => by
    simp only [Node.fragments, if_true, Bool.false_eq_true, if_false, Fragment.noted_nil] at hfits ⊢
    exact laws.cls (walkClass laws hd c hfits)
  | .interfaceDecl _, _ | .enumDecl _, _ | .aliasDecl _, _ => by
    simp only [Node.fragments, Fragment.noted_nil]
    exact laws.still (.pure _)
  | .field _, _ | .method _, _ | .expr _, _ | .typeNode _, _ => by
    simp only [Node.fragments, Fragment.noted_nil]
    exact laws.unsupported _
termination_by structural n => n

theorem walkNodes (laws : F.Laws) (hd : F.Demands d d') :
    (ns : List Node) → F.FitsAll (Node.fragmentsIn true ns) →
      F.Rel .plain (noted (Node.fragmentsIn false ns)) (Walk.nodes d ns) (Walk.nodes d' ns)
  | [], _ => by
    simp only [Node.fragmentsIn, Fragment.noted_nil]
    exact laws.still (.pure _)
  | n :: ns, hfits => by
    simp only [Node.fragmentsIn, fitsAll_append, Fragment.noted_append] at hfits ⊢
    exact laws.bind (laws.reporting (walkNode laws hd n hfits.1)) fun _ =>
      walkNodes laws hd ns hfits.2
termination_by structural ns => ns

end

/-- The body of a callable by itself. -/
theorem walkCallable (laws : F.Laws) (hd : F.Demands d d') (f : Callable)
    (hfits : F.FitsAll (f.fragments true)) :
    F.Body (noted (f.body.fragments false)) (Walk.callable d f) (Walk.callable d' f) := by
  cases f
  simp only [Callable.fragments, fitsAll_cons] at hfits
  exact walkBody laws hd _ hfits.2

/-! ## Checks on demand -/

/-- Checks on demand are related when the bodies are that they check. -/
lemma demandSucc (laws : F.Laws) {limit other : Nat}
    (hbody : ∀ f : Callable, F.FitsAll (f.fragments true) →
      F.Once f (Walk.callable (Walk.demand limit) f) (Walk.callable (Walk.demand other) f)) :
    F.Demands (Walk.demand (limit + 1)) (Walk.demand (other + 1)) where
  function _ hx := laws.functionOnDemand hbody hx
  method := laws.methodOnDemand hbody
  keeps := Session.optionsLaws.stepLaws.demand _

/-- Checks on demand, however deep they are nested. -/
theorem demand (laws : F.Laws) (limit : Nat) :
    F.Demands (Walk.demand limit) (Walk.demand limit) := by
  induction limit with
  | zero =>
    exact ⟨fun _ _ => laws.still (.throw trivial), fun _ _ => laws.still (.throw trivial),
      Session.optionsLaws.stepLaws.demand _⟩
  | succ limit ih => exact laws.demandSucc (walkOnce laws ih)

end Family.Laws

/-! ## Both passes -/

namespace Check.Still

variable {fits : Fragment → Prop}

lemma advance (target : Phase) : (Analysis.advance target).Still fits := by
  refine fun s => .read ?_
  cases h : s.advance? (some target) with
  | none => exact trace _ _ s
  | some t =>
    have hstill : s.Still fits t := by
      unfold Session.advance? at h
      split at h
      · obtain rfl := Option.some.inj h
        exact ⟨id, rfl, rfl, rfl, rfl, Nat.le_refl _⟩
      · cases h
    exact .bind ⟨hstill, fun _ h => by cases h⟩ fun _ u _ => trace _ _ u

lemma collect {nodes : List Node} (hfits : ∀ g ∈ Node.fragmentsIn true nodes, fits g) :
    (Analysis.collect nodes).Still fits :=
  file.bind fun _ => (trace _ _).bind fun _ => (declareAll hfits).bind fun _ => advance _

end Check.Still

namespace Analysis

open Check

/-- Both passes with checks on demand nested `limit` deep at most. -/
def passesWithin (limit : Nat) (nodes : List Node) : Check Unit := do
  collect nodes
  trace .blue ("checking " ++ (← file))
  Walk.nodes (Walk.demand limit) nodes
  advance .typeChecked
  let s ← get
  trace .blue (s.options.file ++ ": " ++ toString s.errorCount ++ " error(s)")

lemma passes_eq (nodes : List Node) :
    passes nodes = passesWithin (Node.callablesIn nodes + 2) nodes := by
  unfold passes passesWithin check
  simp only [bind_assoc]
  rfl

end Analysis

/-- Both passes keep a family. -/
theorem Family.Laws.passesWithin {F : Family} (laws : F.Laws) {limit other : Nat}
    (hd : F.Demands (Walk.demand limit) (Walk.demand other)) {nodes : List Node}
    (hfits : F.FitsAll (Node.fragmentsIn true nodes)) :
    F.Rel .plain (Fragment.noted (Node.fragmentsIn false nodes))
      (Analysis.passesWithin limit nodes) (Analysis.passesWithin other nodes) :=
  laws.first (.collect hfits) fun _ => laws.first .file fun _ => laws.first (.trace _ _) fun _ =>
    laws.last (laws.walkNodes hd nodes hfits) fun _ => (Check.Still.advance _).bind fun _ =>
      .read fun _ => .trace _ _

end TypedScript
