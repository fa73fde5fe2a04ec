import TypedScript.Syntax.Tree

/-!
# Counting callables

How many functions, methods and constructors are declared in a tree. That is how deep
checks on demand can be nested, since none is started from inside itself.
-/
namespace TypedScript

mutual

def Expr.callables : Expr → Nat
  | .template _ parts => Expr.callablesIn parts
  | .paren _ x => x.callables
  | .binary _ x _ y => x.callables + y.callables
  | .unary _ _ x => x.callables
  | .stepBefore _ _ x => x.callables
  | .stepAfter _ x _ => x.callables
  | .assign _ x _ y => x.callables + y.callables
  | .call _ f _ args => f.callables + Expr.callablesIn args
  | .construct _ _ _ args => Expr.callablesIn args
  | .select _ x _ => x.callables
  | .optionalSelect _ x _ => x.callables
  | .methodCall _ x _ _ args => x.callables + Expr.callablesIn args
  | .index _ x i => x.callables + i.callables
  | .await _ x => x.callables
  | .typeOf _ x => x.callables
  | .instanceOf _ x _ => x.callables
  | .range _ x y => x.callables + y.callables
  | .conditional _ c x y => c.callables + x.callables + y.callables
  | .coalesce _ x y => x.callables + y.callables
  | .nonNull _ x => x.callables
  | .matchExpr _ x arms => x.callables + MatchArm.callablesIn arms
  | .classExpr _ c => c.callables
  | .list _ xs => Expr.callablesIn xs
  | .object _ es => ObjectEntry.callablesIn es
  | .arrow _ _ _ body _ => body.callables
  | .spread _ x => x.callables
  | _ => 0
termination_by structural e => e

def Expr.callablesIn : List Expr → Nat
  | [] => 0
  | x :: xs => x.callables + Expr.callablesIn xs
termination_by structural xs => xs

def Expr.callablesIn? : Option Expr → Nat
  | none => 0
  | some x => x.callables
termination_by structural x => x

def MatchArm.callablesIn : List MatchArm → Nat
  | [] => 0
  | .case x y :: as => x.callables + y.callables + MatchArm.callablesIn as
  | .otherwise y :: as => y.callables + MatchArm.callablesIn as
termination_by structural as => as

def ObjectEntry.callablesIn : List ObjectEntry → Nat
  | [] => 0
  | .property _ x :: es => x.callables + ObjectEntry.callablesIn es
  | .spread x :: es => x.callables + ObjectEntry.callablesIn es
termination_by structural es => es

def FunctionBody.callables : FunctionBody → Nat
  | .missing => 0
  | .block b => b.callables
  | .expr x => x.callables
termination_by structural b => b

def Block.callables : Block → Nat
  | ⟨nodes, _⟩ => Node.callablesIn nodes
termination_by structural b => b

def Block.callablesIn? : Option Block → Nat
  | none => 0
  | some b => b.callables
termination_by structural b => b

def Callable.callables : Callable → Nat
  | ⟨_, _, _, _, _, body, _, _, _, _⟩ => body.callables + 1
termination_by structural f => f

def Callable.callablesIn : List Callable → Nat
  | [] => 0
  | f :: fs => f.callables + Callable.callablesIn fs
termination_by structural fs => fs

def Callable.callablesIn? : Option Callable → Nat
  | none => 0
  | some f => f.callables
termination_by structural f => f

def FieldDecl.callablesIn : List FieldDecl → Nat
  | [] => 0
  | ⟨_, _, value, _, _, _, _⟩ :: fs => Expr.callablesIn? value + FieldDecl.callablesIn fs
termination_by structural fs => fs

def ClassDecl.callables : ClassDecl → Nat
  | ⟨_, _, _, _, fields, methods, ctor, _, _⟩ =>
    FieldDecl.callablesIn fields + Callable.callablesIn methods + Callable.callablesIn? ctor
termination_by structural c => c

def SwitchClause.callablesIn : List SwitchClause → Nat
  | [] => 0
  | ⟨values, body⟩ :: cs =>
    Expr.callablesIn values + body.callables + SwitchClause.callablesIn cs
termination_by structural cs => cs

def Node.callables : Node → Nat
  | .block b => b.callables
  | .varDecl _ _ _ value _ => Expr.callablesIn? value
  | .exprStmt _ x => x.callables
  | .ret _ value => Expr.callablesIn? value
  | .ifStmt _ c body other => c.callables + body.callables + other.callables
  | .whileLoop _ c body => c.callables + body.callables
  | .forLoop _ init c post body =>
    init.callables + Expr.callablesIn? c + Expr.callablesIn? post + body.callables
  | .forOf _ _ x body => x.callables + body.callables
  | .switch _ x cs => x.callables + SwitchClause.callablesIn cs
  | .throwStmt _ x => x.callables
  | .tryStmt _ body _ handler final =>
    body.callables + Block.callablesIn? handler + Block.callablesIn? final
  | .function f => f.callables
  | .classDecl c => c.callables
  | _ => 0
termination_by structural n => n

def Node.callablesIn : List Node → Nat
  | [] => 0
  | n :: ns => n.callables + Node.callablesIn ns
termination_by structural ns => ns

end

end TypedScript
