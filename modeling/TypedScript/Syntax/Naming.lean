import TypedScript.Syntax.Tree

/-!
# Looking at nodes

The place of a node, the name of its form in messages, and an expression without the
parentheses around it.
-/
namespace TypedScript

namespace Annotation

/-- The name of the form in messages. -/
def form : Annotation → String
  | omitted => "<nil>"
  | named _ _ _ => "*ast.NamedType"
  | array _ _ => "*ast.ArrayType"
  | nullable _ _ => "*ast.NullableType"
  | union _ _ => "*ast.UnionType"
  | function _ _ _ => "*ast.FuncType"
  | object _ _ => "*ast.ObjectType"

end Annotation

namespace Expr

def mark : Expr → Mark
  | literal m _ _ => m
  | template m _ => m
  | ident m _ => m
  | paren m _ => m
  | binary m _ _ _ => m
  | unary m _ _ => m
  | stepBefore m _ _ => m
  | stepAfter m _ _ => m
  | assign m _ _ _ => m
  | call m _ _ _ => m
  | construct m _ _ _ => m
  | select m _ _ => m
  | optionalSelect m _ _ => m
  | methodCall m _ _ _ _ => m
  | index m _ _ => m
  | await m _ => m
  | this m => m
  | super m => m
  | typeOf m _ => m
  | instanceOf m _ _ => m
  | range m _ _ => m
  | conditional m _ _ _ => m
  | coalesce m _ _ => m
  | nonNull m _ => m
  | matchExpr m _ _ => m
  | classExpr m _ => m
  | namelessClass m => m
  | list m _ => m
  | object m _ => m
  | arrow m _ _ _ _ => m
  | spread m _ => m

def id (e : Expr) : NodeId := e.mark.id

def location (e : Expr) : Location := e.mark.location

/-- The name of the form in messages. -/
def form : Expr → String
  | literal _ _ _ => "*ast.BasicLit"
  | template _ _ => "*ast.TemplateLit"
  | ident _ _ => "*ast.IdentifierExpr"
  | paren _ _ => "*ast.ParenExpr"
  | binary _ _ _ _ => "*ast.BinaryExpr"
  | unary _ _ _ => "*ast.UnaryExpr"
  | stepBefore _ _ _ => "*ast.PrefixExpr"
  | stepAfter _ _ _ => "*ast.PostfixExpr"
  | assign _ _ _ _ => "*ast.AssignExpr"
  | call _ _ _ _ => "*ast.CallExpr"
  | construct _ _ _ _ => "*ast.NewExpr"
  | select _ _ _ => "*ast.SelectorExpr"
  | optionalSelect _ _ _ => "*ast.OptionalChainExpr"
  | methodCall _ _ _ _ _ => "*ast.MethodCallExpr"
  | index _ _ _ => "*ast.IndexExpr"
  | await _ _ => "*ast.AwaitExpr"
  | this _ => "*ast.ThisExpr"
  | super _ => "*ast.SuperExpr"
  | typeOf _ _ => "*ast.TypeofExpr"
  | instanceOf _ _ _ => "*ast.InstanceofExpr"
  | range _ _ _ => "*ast.RangeExpr"
  | conditional _ _ _ _ => "*ast.ConditionalExpr"
  | coalesce _ _ _ => "*ast.NullCoalesceExpr"
  | nonNull _ _ => "*ast.NonNullExpr"
  | matchExpr _ _ _ => "*ast.MatchExpr"
  | classExpr _ _ => "*ast.ClassExpr"
  | namelessClass _ => "*ast.ClassExpr"
  | list _ _ => "*ast.ListLit"
  | object _ _ => "*ast.ObjectLit"
  | arrow _ _ _ _ _ => "*ast.ArrowFunc"
  | spread _ _ => "*ast.SpreadExpr"

/-- The expression inside all parentheses around it. -/
def unparen : Expr → Expr
  | paren _ x => x.unparen
  | e => e
termination_by structural e => e

/-- The name, when the expression is one. -/
def name? (e : Expr) : Option String :=
  match e.unparen with
  | ident _ name => some name
  | _ => none

end Expr

namespace Node

def location : Node → Location
  | empty => {}
  | block b => b.location
  | varDecl l _ _ _ _ => l
  | exprStmt l _ => l
  | ret l _ => l
  | ifStmt l _ _ _ => l
  | whileLoop l _ _ => l
  | forLoop l _ _ _ _ => l
  | forOf l _ _ _ => l
  | switch l _ _ => l
  | breakStmt l => l
  | continueStmt l => l
  | throwStmt l _ => l
  | tryStmt l _ _ _ _ => l
  | function f => f.location
  | classDecl c => c.location
  | interfaceDecl i => i.location
  | enumDecl e => e.location
  | aliasDecl a => a.location
  | field f => f.location
  | method m => m.location
  | expr x => x.location
  | typeNode a => a.location

/-- The name of the form in messages. -/
def form : Node → String
  | empty => "<nil>"
  | block _ => "*ast.Block"
  | varDecl _ _ _ _ _ => "*ast.VarDecl"
  | exprStmt _ _ => "*ast.ExprStmt"
  | ret _ _ => "*ast.ReturnStmt"
  | ifStmt _ _ _ _ => "*ast.IfStmt"
  | whileLoop _ _ _ => "*ast.WhileStmt"
  | forLoop _ _ _ _ _ => "*ast.ForStmt"
  | forOf _ _ _ _ => "*ast.ForOfStmt"
  | switch _ _ _ => "*ast.SwitchStmt"
  | breakStmt _ => "*ast.BreakStmt"
  | continueStmt _ => "*ast.ContinueStmt"
  | throwStmt _ _ => "*ast.ThrowStmt"
  | tryStmt _ _ _ _ _ => "*ast.TryStmt"
  | function _ => "*ast.FuncDecl"
  | classDecl _ => "*ast.ClassDecl"
  | interfaceDecl _ => "*ast.InterfaceDecl"
  | enumDecl _ => "*ast.EnumDecl"
  | aliasDecl _ => "*ast.TypeAliasDecl"
  | field _ => "*ast.FieldDecl"
  | method _ => "*ast.MethodDecl"
  | expr x => x.form
  | typeNode a => a.form

/-- Declarations are known throughout their block and do nothing where they stand. -/
def isDeclaration : Node → Bool
  | function _ | classDecl _ | interfaceDecl _ | enumDecl _ | aliasDecl _ => true
  | field _ | method _ => true
  | _ => false

def isEmpty : Node → Bool
  | empty => true
  | _ => false

end Node

end TypedScript
