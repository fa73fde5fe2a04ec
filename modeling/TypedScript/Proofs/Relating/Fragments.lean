import Mathlib.Data.Set.Insert
import Mathlib.Tactic.Common
import TypedScript.Syntax.Callables
import TypedScript.Syntax.Naming

/-!
# The fragments of a tree

The places of a tree where an expression stands, and its callables, as a list. An
expression that stands for a value to be taken apart is told from the others, and so are
those that are looked at without a type being noted for them: parentheses around the target
of an assignment, what is inside the parentheses of a negated integer or of a called
`super`, and the spread argument of a call.

The whole tree has the bodies of its declarations as fragments. Without them there are
those fragments left that are checked along with it, in its own place.
-/
namespace TypedScript

/-- What becomes of the value of an expression. -/
inductive Role where
  | plain
  /-- It is taken apart: a receiver, an indexed object, a callee, or what a loop goes over. -/
  | opened

/-- A place in a tree. -/
inductive Fragment where
  | expr (role : Role) (e : Expr)
  /-- An expression that no type is noted for. -/
  | bare (e : Expr)
  | callable (f : Callable)

namespace Expr

/-- What is inside the parentheses, one expression for each pair of them. -/
def inner : Expr → List Expr
  | paren _ x => x :: x.inner
  | _ => []
termination_by structural e => e

/-- The expression is an integer, perhaps in parentheses. -/
def isInteger (e : Expr) : Bool :=
  match e.unparen with
  | literal _ .int _ => true
  | _ => false

/-- The expression is `super`, perhaps in parentheses. -/
def isSuper (e : Expr) : Bool :=
  match e.unparen with
  | super _ => true
  | _ => false

end Expr

mutual

/-- The fragments of an expression. -/
def Expr.fragments (whole : Bool) (role : Role) : Expr → List Fragment
  | .template m ps => .expr role (.template m ps) :: Expr.fragmentsIn whole ps
  | .paren m x => .expr role (.paren m x) :: x.fragments whole .plain
  | .binary m x op y =>
    .expr role (.binary m x op y) :: (x.fragments whole .plain ++ y.fragments whole .plain)
  | .unary m op x =>
    .expr role (.unary m op x) ::
      if op = .minus ∧ x.isInteger then .expr .plain x :: x.inner.map .bare
      else x.fragments whole .plain
  | .stepBefore m op x => .expr role (.stepBefore m op x) :: x.targetFragments whole
  | .stepAfter m x op => .expr role (.stepAfter m x op) :: x.targetFragments whole
  | .assign m x op y =>
    .expr role (.assign m x op y) :: (x.targetFragments whole ++ y.fragments whole .plain)
  | .call m f ts args =>
    .expr role (.call m f ts args) ::
      if f.isSuper then
        .expr .opened f :: (f.inner.map .bare ++ Expr.argumentFragments whole true args)
      else f.fragments whole .opened ++ Expr.argumentFragments whole false args
  | .construct m cls ts args =>
    .expr role (.construct m cls ts args) :: Expr.argumentFragments whole true args
  | .select m x field => .expr role (.select m x field) :: x.fragments whole .opened
  | .optionalSelect m x field => .expr role (.optionalSelect m x field) :: x.fragments whole .plain
  | .methodCall m x method ts args =>
    .expr role (.methodCall m x method ts args) ::
      (x.fragments whole .opened ++ Expr.argumentFragments whole false args)
  | .index m x i =>
    .expr role (.index m x i) :: (x.fragments whole .opened ++ i.fragments whole .plain)
  | .await m x => .expr role (.await m x) :: x.fragments whole .plain
  | .typeOf m x => .expr role (.typeOf m x) :: x.fragments whole .plain
  | .instanceOf m x cls => .expr role (.instanceOf m x cls) :: x.fragments whole .plain
  | .range m x y =>
    .expr role (.range m x y) :: (x.fragments whole .plain ++ y.fragments whole .plain)
  | .conditional m c x y =>
    .expr role (.conditional m c x y) ::
      (c.fragments whole .plain ++ (x.fragments whole .plain ++ y.fragments whole .plain))
  | .coalesce m x y =>
    .expr role (.coalesce m x y) :: (x.fragments whole .plain ++ y.fragments whole .plain)
  | .nonNull m x => .expr role (.nonNull m x) :: x.fragments whole .plain
  | .matchExpr m x as =>
    .expr role (.matchExpr m x as) :: (x.fragments whole .plain ++ MatchArm.fragmentsIn whole as)
  | .classExpr m c => .expr role (.classExpr m c) :: if whole then c.fragments whole else []
  | .list m xs => .expr role (.list m xs) :: Expr.argumentFragments whole true xs
  | .object m es => .expr role (.object m es) :: ObjectEntry.fragmentsIn whole es
  | .arrow m ps result b isAsync =>
    .expr role (.arrow m ps result b isAsync) :: b.fragments whole
  | e => [.expr role e]
termination_by structural e => e

/-- The fragments of the target of an assignment. -/
def Expr.targetFragments (whole : Bool) : Expr → List Fragment
  | .paren m x => .bare (.paren m x) :: x.targetFragments whole
  | .ident m name => [.expr .plain (.ident m name)]
  | .select m x field => .expr .plain (.select m x field) :: x.fragments whole .opened
  | .index m x i =>
    .expr .plain (.index m x i) :: (x.fragments whole .opened ++ i.fragments whole .plain)
  | e => [.bare e]
termination_by structural e => e

def Expr.fragmentsIn (whole : Bool) : List Expr → List Fragment
  | [] => []
  | x :: xs => x.fragments whole .plain ++ Expr.fragmentsIn whole xs
termination_by structural xs => xs

def Expr.fragmentsIn? (whole : Bool) : Option Expr → List Fragment
  | none => []
  | some x => x.fragments whole .plain
termination_by structural x => x

/-- The fragments of arguments and elements; a type may be noted for a spread or not. -/
def Expr.argumentFragments (whole noted : Bool) : List Expr → List Fragment
  | [] => []
  | .spread m x :: xs =>
    (if noted then .expr .plain (.spread m x) else .bare (.spread m x)) ::
      (x.fragments whole .plain ++ Expr.argumentFragments whole noted xs)
  | x :: xs => x.fragments whole .plain ++ Expr.argumentFragments whole noted xs
termination_by structural xs => xs

/-- The pattern `_` is no expression. -/
def MatchArm.fragmentsIn (whole : Bool) : List MatchArm → List Fragment
  | [] => []
  | .case p x :: as =>
    (if p.name? = some "_" then [] else p.fragments whole .plain) ++
      (x.fragments whole .plain ++ MatchArm.fragmentsIn whole as)
  | .otherwise x :: as => x.fragments whole .plain ++ MatchArm.fragmentsIn whole as
termination_by structural as => as

def ObjectEntry.fragmentsIn (whole : Bool) : List ObjectEntry → List Fragment
  | [] => []
  | .property _ x :: es => x.fragments whole .plain ++ ObjectEntry.fragmentsIn whole es
  | .spread x :: es => x.fragments whole .plain ++ ObjectEntry.fragmentsIn whole es
termination_by structural es => es

def FunctionBody.fragments (whole : Bool) : FunctionBody → List Fragment
  | .missing => []
  | .block b => b.fragments whole
  | .expr x => x.fragments whole .plain
termination_by structural b => b

def Block.fragments (whole : Bool) : Block → List Fragment
  | ⟨ns, _⟩ => Node.fragmentsIn whole ns
termination_by structural b => b

def Block.fragmentsIn? (whole : Bool) : Option Block → List Fragment
  | none => []
  | some b => b.fragments whole
termination_by structural b => b

def Callable.fragments (whole : Bool) : Callable → List Fragment
  | ⟨id, name, typeParams, params, result, body, isAsync, visibility, isStatic, location⟩ =>
    .callable
      ⟨id, name, typeParams, params, result, body, isAsync, visibility, isStatic, location⟩ ::
      body.fragments whole
termination_by structural f => f

def Callable.fragmentsIn (whole : Bool) : List Callable → List Fragment
  | [] => []
  | f :: fs => f.fragments whole ++ Callable.fragmentsIn whole fs
termination_by structural fs => fs

def Callable.fragmentsIn? (whole : Bool) : Option Callable → List Fragment
  | none => []
  | some f => f.fragments whole
termination_by structural f => f

def FieldDecl.fragmentsIn (whole : Bool) : List FieldDecl → List Fragment
  | [] => []
  | ⟨_, _, value, _, _, _, _⟩ :: fs =>
    Expr.fragmentsIn? whole value ++ FieldDecl.fragmentsIn whole fs
termination_by structural fs => fs

def ClassDecl.fragments (whole : Bool) : ClassDecl → List Fragment
  | ⟨_, _, _, _, fields, methods, ctor, _, _⟩ =>
    FieldDecl.fragmentsIn whole fields ++
      (Callable.fragmentsIn? whole ctor ++ Callable.fragmentsIn whole methods)
termination_by structural c => c

def SwitchClause.fragmentsIn (whole : Bool) : List SwitchClause → List Fragment
  | [] => []
  | ⟨values, body⟩ :: cs =>
    Expr.fragmentsIn whole values ++ (body.fragments whole ++ SwitchClause.fragmentsIn whole cs)
termination_by structural cs => cs

/-- The fragments of a node. Declared functions and classes have theirs in the whole tree
only. -/
def Node.fragments (whole : Bool) : Node → List Fragment
  | .block b => b.fragments whole
  | .varDecl _ _ _ value _ => Expr.fragmentsIn? whole value
  | .exprStmt _ x => x.fragments whole .plain
  | .ret _ value => Expr.fragmentsIn? whole value
  | .ifStmt _ c body other =>
    c.fragments whole .plain ++ (body.fragments whole ++ other.fragments whole)
  | .whileLoop _ c body => c.fragments whole .plain ++ body.fragments whole
  | .forLoop _ init c post body =>
    init.fragments whole ++ (Expr.fragmentsIn? whole c ++
      (body.fragments whole ++ Expr.fragmentsIn? whole post))
  | .forOf _ _ x body => x.fragments whole .opened ++ body.fragments whole
  | .switch _ x cs => x.fragments whole .plain ++ SwitchClause.fragmentsIn whole cs
  | .throwStmt _ x => x.fragments whole .plain
  | .tryStmt _ body _ handler final =>
    body.fragments whole ++ (Block.fragmentsIn? whole handler ++ Block.fragmentsIn? whole final)
  | .function f => if whole then f.fragments whole else []
  | .classDecl c => if whole then c.fragments whole else []
  | _ => []
termination_by structural n => n

def Node.fragmentsIn (whole : Bool) : List Node → List Fragment
  | [] => []
  | n :: ns => n.fragments whole ++ Node.fragmentsIn whole ns
termination_by structural ns => ns

end

lemma Callable.mem_fragments {whole : Bool} (f : Callable) : .callable f ∈ f.fragments whole := by
  cases f
  exact List.mem_cons_self

/-- The fragments of a method are fragments of its class. -/
lemma ClassDecl.mem_fragments_of_method {whole : Bool} {c : ClassDecl} {m : Callable}
    {g : Fragment} (hm : m ∈ c.methods) (hg : g ∈ m.fragments whole) : g ∈ c.fragments whole := by
  have hmethods : ∀ ms : List Callable, m ∈ ms → g ∈ Callable.fragmentsIn whole ms := by
    intro ms hms
    induction ms with
    | nil => cases hms
    | cons f fs ih =>
      rw [Callable.fragmentsIn, List.mem_append]
      obtain rfl | hms := List.mem_cons.1 hms
      · exact .inl hg
      · exact .inr (ih hms)
  cases c
  simp only [ClassDecl.fragments, List.mem_append]
  exact .inr (.inr (hmethods _ hm))

end TypedScript
