import Mathlib.Logic.Relation
import Mathlib.Tactic.Common
import TypedScript.Narrowing.Condition

/-!
# The spelling of conditions

The same condition can be written in many ways: with more or fewer parentheses, with the
operands of a comparison in the other order, with a negation pulled out or pushed in. What a
condition tells does not depend on that.
-/
namespace TypedScript

/-! ## Trees without parentheses -/

mutual

/-- The expression without any parentheses in it. -/
def Expr.stripped : Expr → Expr
  | .literal m kind text => .literal m kind text
  | .template m parts => .template m (Expr.strippedAll parts)
  | .ident m name => .ident m name
  | .paren _ x => x.stripped
  | .binary m x op y => .binary m x.stripped op y.stripped
  | .unary m op x => .unary m op x.stripped
  | .stepBefore m op x => .stepBefore m op x.stripped
  | .stepAfter m x op => .stepAfter m x.stripped op
  | .assign m x op y => .assign m x.stripped op y.stripped
  | .call m f ts args => .call m f.stripped ts (Expr.strippedAll args)
  | .construct m cls ts args => .construct m cls ts (Expr.strippedAll args)
  | .select m x field => .select m x.stripped field
  | .optionalSelect m x field => .optionalSelect m x.stripped field
  | .methodCall m x method ts args => .methodCall m x.stripped method ts (Expr.strippedAll args)
  | .index m x i => .index m x.stripped i.stripped
  | .await m x => .await m x.stripped
  | .this m => .this m
  | .super m => .super m
  | .typeOf m x => .typeOf m x.stripped
  | .instanceOf m x cls => .instanceOf m x.stripped cls
  | .range m x y => .range m x.stripped y.stripped
  | .conditional m c x y => .conditional m c.stripped x.stripped y.stripped
  | .coalesce m x y => .coalesce m x.stripped y.stripped
  | .nonNull m x => .nonNull m x.stripped
  | .matchExpr m x arms => .matchExpr m x.stripped (MatchArm.strippedAll arms)
  | .classExpr m c => .classExpr m c.stripped
  | .namelessClass m => .namelessClass m
  | .list m xs => .list m (Expr.strippedAll xs)
  | .object m es => .object m (ObjectEntry.strippedAll es)
  | .arrow m ps result b isAsync => .arrow m ps result b.stripped isAsync
  | .spread m x => .spread m x.stripped
termination_by structural e => e

def Expr.strippedAll : List Expr → List Expr
  | [] => []
  | x :: xs => x.stripped :: Expr.strippedAll xs
termination_by structural xs => xs

def Expr.stripped? : Option Expr → Option Expr
  | none => none
  | some x => some x.stripped
termination_by structural x => x

def MatchArm.strippedAll : List MatchArm → List MatchArm
  | [] => []
  | .case p x :: as => .case p.stripped x.stripped :: MatchArm.strippedAll as
  | .otherwise x :: as => .otherwise x.stripped :: MatchArm.strippedAll as
termination_by structural as => as

def ObjectEntry.strippedAll : List ObjectEntry → List ObjectEntry
  | [] => []
  | .property key x :: es => .property key x.stripped :: ObjectEntry.strippedAll es
  | .spread x :: es => .spread x.stripped :: ObjectEntry.strippedAll es
termination_by structural es => es

def FunctionBody.stripped : FunctionBody → FunctionBody
  | .missing => .missing
  | .block b => .block b.stripped
  | .expr x => .expr x.stripped
termination_by structural b => b

def Block.stripped : Block → Block
  | ⟨nodes, place⟩ => ⟨Node.strippedAll nodes, place⟩
termination_by structural b => b

def Block.stripped? : Option Block → Option Block
  | none => none
  | some b => some b.stripped
termination_by structural b => b

def Callable.stripped : Callable → Callable
  | ⟨id, name, typeParams, params, result, body, isAsync, visibility, isStatic, place⟩ =>
    ⟨id, name, typeParams, params, result, body.stripped, isAsync, visibility, isStatic, place⟩
termination_by structural f => f

def Callable.strippedAll : List Callable → List Callable
  | [] => []
  | f :: fs => f.stripped :: Callable.strippedAll fs
termination_by structural fs => fs

def Callable.stripped? : Option Callable → Option Callable
  | none => none
  | some f => some f.stripped
termination_by structural f => f

def FieldDecl.stripped : FieldDecl → FieldDecl
  | ⟨name, type, value, visibility, isStatic, isReadonly, place⟩ =>
    ⟨name, type, Expr.stripped? value, visibility, isStatic, isReadonly, place⟩
termination_by structural f => f

def FieldDecl.strippedAll : List FieldDecl → List FieldDecl
  | [] => []
  | f :: fs => f.stripped :: FieldDecl.strippedAll fs
termination_by structural fs => fs

def ClassDecl.stripped : ClassDecl → ClassDecl
  | ⟨id, name, typeParams, parent, fields, methods, ctor, isAbstract, place⟩ =>
    ⟨id, name, typeParams, parent, FieldDecl.strippedAll fields, Callable.strippedAll methods,
      Callable.stripped? ctor, isAbstract, place⟩
termination_by structural c => c

def EnumMemberDecl.strippedAll : List EnumMemberDecl → List EnumMemberDecl
  | [] => []
  | ⟨name, value⟩ :: ms => ⟨name, Expr.stripped? value⟩ :: EnumMemberDecl.strippedAll ms
termination_by structural ms => ms

def EnumDecl.stripped : EnumDecl → EnumDecl
  | ⟨name, members, place⟩ => ⟨name, EnumMemberDecl.strippedAll members, place⟩
termination_by structural e => e

def SwitchClause.strippedAll : List SwitchClause → List SwitchClause
  | [] => []
  | ⟨values, body⟩ :: cs => ⟨Expr.strippedAll values, body.stripped⟩ :: SwitchClause.strippedAll cs
termination_by structural cs => cs

def Node.stripped : Node → Node
  | .empty => .empty
  | .block b => .block b.stripped
  | .varDecl place name type value isConst =>
    .varDecl place name type (Expr.stripped? value) isConst
  | .exprStmt place x => .exprStmt place x.stripped
  | .ret place value => .ret place (Expr.stripped? value)
  | .ifStmt place c body other => .ifStmt place c.stripped body.stripped other.stripped
  | .whileLoop place c body => .whileLoop place c.stripped body.stripped
  | .forLoop place init c post body =>
    .forLoop place init.stripped (Expr.stripped? c) (Expr.stripped? post) body.stripped
  | .forOf place var x body => .forOf place var x.stripped body.stripped
  | .switch place x cs => .switch place x.stripped (SwitchClause.strippedAll cs)
  | .breakStmt place => .breakStmt place
  | .continueStmt place => .continueStmt place
  | .throwStmt place x => .throwStmt place x.stripped
  | .tryStmt place body param handler final =>
    .tryStmt place body.stripped param (Block.stripped? handler) (Block.stripped? final)
  | .function f => .function f.stripped
  | .classDecl c => .classDecl c.stripped
  | .interfaceDecl i => .interfaceDecl i
  | .enumDecl e => .enumDecl e.stripped
  | .aliasDecl a => .aliasDecl a
  | .field f => .field f.stripped
  | .method f => .method f.stripped
  | .expr x => .expr x.stripped
  | .typeNode a => .typeNode a
termination_by structural n => n

def Node.strippedAll : List Node → List Node
  | [] => []
  | n :: ns => n.stripped :: Node.strippedAll ns
termination_by structural ns => ns

end

/-! ## Operands of comparisons -/

/-- What a comparison finds out about one of its operands. -/
inductive Operand where
  | name (name : String)
  | typeOf (name : Option String)
  | text (text : String)
  | null
  | other

namespace Operand

def name? : Operand → Option String
  | name n => some n
  | _ => none

def typeTest? : Operand → Operand → Option (String × Ty)
  | typeOf n, text s => n.bind fun n => (Condition.namedType? s).map fun t => (n, t)
  | _, _ => none

def nullTest? : Operand → Operand → Option String
  | name n, null => some n
  | _, _ => none

/-- At most one order of two operands makes a test of a type. -/
lemma typeTest?_comm (a b : Operand) :
    (a.typeTest? b).or (b.typeTest? a) = (b.typeTest? a).or (a.typeTest? b) := by
  cases a <;> cases b <;> simp [typeTest?]

lemma nullTest?_comm (a b : Operand) :
    (a.nullTest? b).or (b.nullTest? a) = (b.nullTest? a).or (a.nullTest? b) := by
  cases a <;> cases b <;> simp [nullTest?]

end Operand

namespace Expr

def operand (e : Expr) : Operand :=
  match e.unparen with
  | ident _ name => .name name
  | typeOf _ x => .typeOf x.name?
  | literal _ .string text => .text text
  | literal _ .null _ => .null
  | _ => .other

lemma name?_eq (e : Expr) : e.name? = e.operand.name? := by
  unfold name? operand
  cases e.unparen with
  | literal m kind text => cases kind <;> rfl
  | _ => rfl

/-- Parentheses make no difference to a comparison. -/
lemma operand_stripped : (e : Expr) → e.stripped.operand = e.operand
  | paren _ x => operand_stripped x
  | typeOf _ x => by
    have hname : x.stripped.name? = x.name? := by rw [name?_eq, operand_stripped x, ← name?_eq]
    simp only [stripped, operand, unparen, hname]
  | literal .. | template .. | ident .. | binary .. | unary .. | stepBefore .. | stepAfter ..
  | assign .. | call .. | construct .. | select .. | optionalSelect .. | methodCall ..
  | index .. | await .. | this .. | super .. | instanceOf .. | range .. | conditional ..
  | coalesce .. | nonNull .. | matchExpr .. | classExpr .. | namelessClass .. | list ..
  | object .. | arrow .. | spread .. => rfl
termination_by structural e => e

lemma name?_stripped (e : Expr) : e.stripped.name? = e.name? := by
  rw [name?_eq, operand_stripped, ← name?_eq]

end Expr

namespace Condition

variable (env : Surroundings)

lemma typeTest?_eq (x y : Expr) : typeTest? x y = x.operand.typeTest? y.operand := by
  unfold typeTest? Expr.operand
  generalize x.unparen = a
  generalize y.unparen = b
  cases a with
  | typeOf m e =>
    cases b with
    | literal m kind text =>
      cases kind with
      | string =>
        dsimp only [Operand.typeTest?]
        cases e.name? <;> cases namedType? text <;> rfl
      | _ => rfl
    | _ => rfl
  | literal m kind text => cases kind <;> rfl
  | _ => rfl

lemma nullTest?_eq (x y : Expr) : nullTest? x y = x.operand.nullTest? y.operand := by
  rw [nullTest?, x.name?_eq]
  generalize x.operand = a
  unfold Expr.operand
  cases y.unparen with
  | literal m kind text => cases a <;> cases kind <;> rfl
  | _ => cases a <;> rfl

/-- What a comparison tells depends on what is found out about its operands, in either order. -/
lemma equality_congr {x y x' y' : Expr}
    (h : x.operand = x'.operand ∧ y.operand = y'.operand ∨
      x.operand = y'.operand ∧ y.operand = x'.operand) :
    equality env x y = equality env x' y' := by
  have htype : (typeTest? x y).or (typeTest? y x) = (typeTest? x' y').or (typeTest? y' x') := by
    simp only [typeTest?_eq]
    obtain ⟨hx, hy⟩ | ⟨hx, hy⟩ := h
    · rw [hx, hy]
    · rw [hx, hy, Operand.typeTest?_comm]
  have hnull : (nullTest? x y).or (nullTest? y x) = (nullTest? x' y').or (nullTest? y' x') := by
    simp only [nullTest?_eq]
    obtain ⟨hx, hy⟩ | ⟨hx, hy⟩ := h
    · rw [hx, hy]
    · rw [hx, hy, Operand.nullTest?_comm]
  rw [equality, equality, htype, hnull]

lemma equality_comm (x y : Expr) : equality env x y = equality env y x :=
  equality_congr env (.inr ⟨rfl, rfl⟩)

/-! ## Conditions -/

lemma analyze_unary_stripped (m : Mark) (op : Operator) {x : Expr}
    (hx : analyze env x.stripped = analyze env x) :
    analyze env (.unary m op x.stripped) = analyze env (.unary m op x) := by
  cases op with
  | not => exact congrArg Outcomes.swap hx
  | _ => rfl

lemma analyze_binary_stripped (m : Mark) (op : Operator) {x y : Expr}
    (hx : analyze env x.stripped = analyze env x) (hy : analyze env y.stripped = analyze env y) :
    analyze env (.binary m x.stripped op y.stripped) = analyze env (.binary m x op y) := by
  have hequality : equality env x.stripped y.stripped = equality env x y :=
    equality_congr env (.inl ⟨x.operand_stripped, y.operand_stripped⟩)
  cases op with
  | and => simp only [analyze, hx, hy]
  | or => simp only [analyze, hx, hy]
  | eq => exact hequality
  | notEq => exact congrArg Outcomes.swap hequality
  | _ => rfl

/-- Parentheses make no difference to a condition. -/
lemma analyze_stripped : (e : Expr) → analyze env e.stripped = analyze env e
  | .paren _ x => analyze_stripped x
  | .unary m op x => analyze_unary_stripped env m op (analyze_stripped x)
  | .binary m x op y => analyze_binary_stripped env m op (analyze_stripped x) (analyze_stripped y)
  | .instanceOf m x cls => by simp only [Expr.stripped, analyze, x.name?_stripped]
  | .literal .. | .template .. | .ident .. | .stepBefore .. | .stepAfter .. | .assign ..
  | .call .. | .construct .. | .select .. | .optionalSelect .. | .methodCall .. | .index ..
  | .await .. | .this .. | .super .. | .typeOf .. | .range .. | .conditional .. | .coalesce ..
  | .nonNull .. | .matchExpr .. | .classExpr .. | .namelessClass .. | .list .. | .object ..
  | .arrow .. | .spread .. => rfl
termination_by structural e => e

end Condition

/-- One condition is the other one in a different spelling. Parentheses may be anywhere in
either of them; all else is done where only negations, conjunctions, disjunctions and
parentheses are around. -/
inductive Expr.Respells : Expr → Expr → Prop
  | parentheses {x y : Expr} : x.stripped = y.stripped → Respells x y
  | swapEq {m m' : Mark} {x y : Expr} : Respells (.binary m x .eq y) (.binary m' y .eq x)
  | swapNotEq {m m' : Mark} {x y : Expr} :
      Respells (.binary m x .notEq y) (.binary m' y .notEq x)
  | notNot {m m' : Mark} {x : Expr} : Respells (.unary m .not (.unary m' .not x)) x
  | notEq {m m₁ m₂ : Mark} {x y : Expr} :
      Respells (.binary m x .notEq y) (.unary m₁ .not (.binary m₂ x .eq y))
  | notAnd {m m' m₁ m₂ m₃ : Mark} {x y : Expr} :
      Respells (.unary m .not (.binary m' x .and y))
        (.binary m₁ (.unary m₂ .not x) .or (.unary m₃ .not y))
  | notOr {m m' m₁ m₂ m₃ : Mark} {x y : Expr} :
      Respells (.unary m .not (.binary m' x .or y))
        (.binary m₁ (.unary m₂ .not x) .and (.unary m₃ .not y))
  | paren {m : Mark} {x y : Expr} : Respells x y → Respells (.paren m x) (.paren m y)
  | not {m : Mark} {x y : Expr} : Respells x y → Respells (.unary m .not x) (.unary m .not y)
  | andLeft {m : Mark} {x x' y : Expr} :
      Respells x x' → Respells (.binary m x .and y) (.binary m x' .and y)
  | andRight {m : Mark} {x y y' : Expr} :
      Respells y y' → Respells (.binary m x .and y) (.binary m x .and y')
  | orLeft {m : Mark} {x x' y : Expr} :
      Respells x x' → Respells (.binary m x .or y) (.binary m x' .or y)
  | orRight {m : Mark} {x y y' : Expr} :
      Respells y y' → Respells (.binary m x .or y) (.binary m x .or y')

namespace Condition

variable {env : Surroundings}

lemma analyze_respells {c c' : Expr} (h : c.Respells c') : analyze env c = analyze env c' := by
  induction h with
  | @parentheses x y hsame => rw [← analyze_stripped env x, hsame, analyze_stripped env y]
  | @swapEq m m' x y => exact equality_comm env x y
  | @swapNotEq m m' x y => exact congrArg Outcomes.swap (equality_comm env x y)
  | notNot => rfl
  | notEq => rfl
  | notAnd => rfl
  | notOr => rfl
  | paren _ ih => exact ih
  | not _ ih => exact congrArg Outcomes.swap ih
  | andLeft _ ih | andRight _ ih | orLeft _ ih | orRight _ ih => simp only [analyze, ih]

/-- A condition tells the same, for both outcomes, in all its spellings. -/
theorem spelling_irrelevant (env : Surroundings) (c c' : Expr)
    (h : Relation.EqvGen Expr.Respells c c') : analyze env c = analyze env c' := by
  induction h with
  | rel c c' h => exact analyze_respells h
  | refl c => rfl
  | symm c c' _ ih => exact ih.symm
  | trans c c' c'' _ _ ih ih' => exact ih.trans ih'

/-- A mark for expressions that were written nowhere. -/
def unmarked : Mark := ⟨0, {}⟩

def negated (x : Expr) : Expr := .unary unmarked .not x

def both (x y : Expr) : Expr := .binary unmarked x .and y

/-- The expression `typeof x`. -/
def typeOfX : Expr := .typeOf unmarked (.ident unmarked "x")

def intText : Expr := .literal unmarked .string "int"

/-- The test `y == null`. -/
def isNull : Expr :=
  .binary unmarked (.ident unmarked "y") .eq (.literal unmarked .null "null")

/-- The condition `!("int" != typeof (x) || y == null)`. -/
def negatedDisjunction : Expr :=
  negated (.paren unmarked (.binary unmarked (.binary unmarked intText .notEq
    (.typeOf unmarked (.paren unmarked (.ident unmarked "x")))) .or isNull))

/-- It can be written as `typeof x == "int" && !(y == null)`. Where it holds, `x` is an integer
and `y`, which may be null, is a string. -/
theorem negated_disjunction_told :
    analyze ⟨fun name => if name = "y" then some (.nullable .str) else none, fun _ => none⟩
      negatedDisjunction = { holds := [("x", .int), ("y", .str)] } := by
  have hopened : negatedDisjunction.Respells (negated (.binary unmarked
      (.binary unmarked intText .notEq typeOfX) .or isNull)) := .parentheses rfl
  have hsplit : (negated (.binary unmarked
      (.binary unmarked intText .notEq typeOfX) .or isNull)).Respells
        (both (negated (.binary unmarked intText .notEq typeOfX)) (negated isNull)) := .notOr
  have hnegated : (both (negated (.binary unmarked intText .notEq typeOfX))
      (negated isNull)).Respells (both (negated (negated (.binary unmarked intText .eq typeOfX)))
        (negated isNull)) := .andLeft (.not .notEq)
  have hspelling : Relation.EqvGen Expr.Respells negatedDisjunction
      (both (.binary unmarked typeOfX .eq intText) (negated isNull)) := by
    refine .trans _ _ _ (.rel _ _ hopened) (.trans _ _ _ (.rel _ _ hsplit) ?_)
    refine .trans _ _ _ (.rel _ _ hnegated) (.trans _ _ _ (.rel _ _ (.andLeft .notNot)) ?_)
    exact .rel _ _ (.andLeft .swapEq)
  exact (spelling_irrelevant _ _ _ hspelling).trans rfl

end Condition

end TypedScript
