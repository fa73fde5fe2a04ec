import TypedScript.Checking.Classes
import TypedScript.Checking.Collections
import TypedScript.Checking.Names
import TypedScript.Checking.Statements
import TypedScript.Syntax.Callables

/-!
# Walking the tree

The check of every node, by recursion on the tree: each construct hands the checks of
its parts to its rule.

Checks on demand leave the tree at hand and enter a declaration elsewhere. They are
nested no deeper than there are callables, which bounds them.
-/
namespace TypedScript

namespace Walk

open Check Rule

mutual

/-- Check an expression under a hint and note its type. -/
def expr (d : Demand) : Expr → Hint → Check Ty
  | .literal m kind text, h =>
    recorded m (settle m.location "literal out of range" (Typing.literal kind text h))
  | .template m parts, _ => recorded m (template (Walk.parts d parts))
  | .ident m name, _ => recorded m (Name.value d m.location name)
  | .paren m x, h => recorded m (expr d x h)
  | .binary m x op y, _ =>
    recorded m <|
      if op.isLogical then logical m.location ⟨x, expr d x⟩ op ⟨y, expr d y⟩
      else binary m.location ⟨x, expr d x⟩ op ⟨y, expr d y⟩
  | .unary m op x, h => recorded m (unary m.location op ⟨x, expr d x⟩ h)
  | .stepBefore m op x, _ => recorded m (step m.location op (target d x.location x))
  | .stepAfter m x op, _ => recorded m (step m.location op (target d x.location x))
  | .assign m x op y, _ =>
    recorded m (assign m.location x (target d x.location x) op ⟨y, expr d y⟩)
  | .call m f typeArgs args, _ =>
    recorded m (call m.location ⟨f, expr d f⟩ typeArgs (arguments d args))
  | .construct m cls typeArgs args, h =>
    recorded m (Call.construct m.location cls typeArgs (arguments d args) h)
  | .select m x field, _ => recorded m (select d ⟨x, expr d x⟩ field)
  | .optionalSelect m x field, _ => recorded m (optionalSelect d ⟨x, expr d x⟩ field)
  | .methodCall m x method typeArgs args, _ =>
    recorded m (methodCall d m.location ⟨x, expr d x⟩ method typeArgs (arguments d args))
  | .index m x i, _ => recorded m (index m.location ⟨x, expr d x⟩ ⟨i, expr d i⟩)
  | .await m x, h => recorded m (await m.location ⟨x, expr d x⟩ h)
  | .this m, _ => recorded m (Name.this m.location)
  | .super m, _ => recorded m (Ty.cls <$> Call.superclass m.location)
  | .typeOf m x, _ => recorded m (template [⟨x, expr d x⟩])
  | .instanceOf m x cls, _ =>
    recorded m do
      let _ ← expr d x none
      Name.demandClass cls
      return .bool
  | .range m x y, _ => recorded m (range m.location ⟨x, expr d x⟩ ⟨y, expr d y⟩)
  | .conditional m c x y, h =>
    recorded m (conditional ⟨c, expr d c⟩ ⟨x, expr d x⟩ ⟨y, expr d y⟩ h)
  | .coalesce m x y, h => recorded m (coalesce ⟨x, expr d x⟩ ⟨y, expr d y⟩ h)
  | .nonNull m x, h => recorded m (nonNull ⟨x, expr d x⟩ h)
  | .matchExpr m x as, h => recorded m (matching ⟨x, expr d x⟩ (arms d as) h)
  | .classExpr m c, _ => recorded m (classExpr (cls d c))
  | .namelessClass m, _ =>
    recorded m (invalidOperation m.location "class expression without a name")
  | .list m xs, h => recorded m (list (arguments d xs) h)
  | .object m es, h => recorded m (object m.location (entries d es) h)
  | .arrow m params result b isAsync, h =>
    recorded m (arrow m.location params result (body d b) isAsync h)
  | .spread m _, _ => recorded m (spread m.location)
termination_by structural e => e

/-- Check an assignment target. Parentheses around it do not matter; `place` is where
they begin. -/
def target (d : Demand) (place : Location) : Expr → Check Ty
  | .paren _ x => target d place x
  | .ident m name => Name.target m name
  | .select m x field => recorded m (selectTarget d ⟨x, expr d x⟩ field)
  | .index m x i => recorded m (index m.location ⟨x, expr d x⟩ ⟨i, expr d i⟩)
  | _ => Name.noTarget place
termination_by structural e => e

def parts (d : Demand) : List Expr → List Part
  | [] => []
  | x :: xs => ⟨x, expr d x⟩ :: parts d xs
termination_by structural xs => xs

def part? (d : Demand) : Option Expr → Option Part
  | none => none
  | some x => some ⟨x, expr d x⟩
termination_by structural x => x

def arguments (d : Demand) : List Expr → List Argument
  | [] => []
  | .spread m x :: xs => ⟨⟨.spread m x, expr d x⟩, true⟩ :: arguments d xs
  | x :: xs => ⟨⟨x, expr d x⟩, false⟩ :: arguments d xs
termination_by structural xs => xs

def arms (d : Demand) : List MatchArm → List Arm
  | [] => []
  | .case p x :: as => ⟨some ⟨p, expr d p⟩, ⟨x, expr d x⟩⟩ :: arms d as
  | .otherwise x :: as => ⟨none, ⟨x, expr d x⟩⟩ :: arms d as
termination_by structural as => as

def entries (d : Demand) : List ObjectEntry → List Entry
  | [] => []
  | .property key x :: es => .property key ⟨x, expr d x⟩ :: entries d es
  | .spread x :: es => .spread ⟨x, expr d x⟩ :: entries d es
termination_by structural es => es

def body (d : Demand) : FunctionBody → BodyCheck
  | .missing => .missing
  | .block b => .block b (block d b)
  | .expr x => .expr ⟨x, expr d x⟩
termination_by structural b => b

def callable (d : Demand) : Callable → BodyCheck
  | ⟨_, _, _, _, _, b, _, _, _, _⟩ => body d b
termination_by structural f => f

def callables (d : Demand) : List Callable → List (Callable × BodyCheck)
  | [] => []
  | f :: fs => (f, callable d f) :: callables d fs
termination_by structural fs => fs

def callable? (d : Demand) : Option Callable → Option (Callable × BodyCheck)
  | none => none
  | some f => some (f, callable d f)
termination_by structural f => f

def fields (d : Demand) : List FieldDecl → List (FieldDecl × Option Part)
  | [] => []
  | ⟨name, type, value, visibility, isStatic, isReadonly, location⟩ :: fs =>
    (⟨name, type, value, visibility, isStatic, isReadonly, location⟩, part? d value) ::
      fields d fs
termination_by structural fs => fs

def cls (d : Demand) : ClassDecl → ClassCheck
  | ⟨id, name, typeParams, parent, fs, methods, ctor, isAbstract, location⟩ =>
    ⟨⟨id, name, typeParams, parent, fs, methods, ctor, isAbstract, location⟩,
      fields d fs, callable? d ctor, callables d methods⟩
termination_by structural c => c

/-- Check the nodes of a block, after its declarations are registered. -/
def block (d : Demand) : Block → Check Unit
  | ⟨ns, _⟩ => do
    Declare.all ns
    nodes d ns
termination_by structural b => b

def block? (d : Demand) : Option Block → Option (Check Unit)
  | none => none
  | some b => some (block d b)
termination_by structural b => b

def clauses (d : Demand) : List SwitchClause → List ClauseCheck
  | [] => []
  | ⟨values, b⟩ :: cs => ⟨parts d values, block d b⟩ :: clauses d cs
termination_by structural cs => cs

/-- Check a statement or declaration. -/
def node (d : Demand) : Node → Check Unit
  | .empty => return
  | .block b => during Session.enterScope (block d b)
  | .varDecl place name type value isConst => varDecl place name type (part? d value) isConst
  | .exprStmt _ x => discard (expr d x none)
  | .ret place value => ret place (part? d value)
  | .ifStmt _ c b .empty => ifStmt ⟨c, expr d c⟩ (block d b) .none
  | .ifStmt _ c b (.block n) => ifStmt ⟨c, expr d c⟩ (block d b) (.block (block d n))
  | .ifStmt _ c b n => ifStmt ⟨c, expr d c⟩ (block d b) (.node (node d n))
  | .whileLoop _ c b => whileLoop ⟨c, expr d c⟩ (block d b)
  | .forLoop _ init c post b => forLoop (node d init) (part? d c) (part? d post) (block d b)
  | .forOf _ var x b => forOf var ⟨x, expr d x⟩ (block d b)
  | .switch _ x cs => switch ⟨x, expr d x⟩ (clauses d cs)
  | .breakStmt place => breakStmt place
  | .continueStmt place => continueStmt place
  | .throwStmt _ x => discard (expr d x none)
  | .tryStmt _ b param handler final => tryStmt (block d b) param (block? d handler) (block? d final)
  | .function f => function f (callable d f)
  | .classDecl c => Rule.cls (cls d c)
  | .interfaceDecl _ | .enumDecl _ | .aliasDecl _ => return
  | .field f => unsupported (.field f)
  | .method f => unsupported (.method f)
  | .expr x => unsupported (.expr x)
  | .typeNode a => unsupported (.typeNode a)
termination_by structural n => n

/-- Check nodes one after another, reporting the fault of each. -/
def nodes (d : Demand) : List Node → Check Unit
  | [] => return
  | n :: ns => do
    reporting (node d n)
    nodes d ns
termination_by structural ns => ns

end

/-- Checks on demand, nested `limit` deep at most. -/
def demand : Nat → Demand
  | 0 => ⟨fun _ => throw (.misuse .endless), fun _ _ => throw (.misuse .endless)⟩
  | limit + 1 =>
    let bodyOf := callable (demand limit)
    ⟨functionOnDemand bodyOf, methodOnDemand bodyOf⟩

/-- Checks on demand for the declarations of a tree. -/
def demandFor (ns : List Node) : Demand := demand (Node.callablesIn ns + 2)

end Walk

end TypedScript
