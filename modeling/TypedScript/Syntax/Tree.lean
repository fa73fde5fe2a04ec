import TypedScript.Syntax.Annotation
import TypedScript.Syntax.Operator
import TypedScript.Text.Integer
import TypedScript.Type.Basic

/-!
# Syntax trees

Programs as trees of nodes. Every expression and every declaration carries a number;
the analysis tells nodes apart by it and keeps its results under it. Literals are built
from the values they denote.

An absent statement is the empty node, so a list of nodes may have holes.
-/
namespace TypedScript

/-- The number of a node. -/
abbrev NodeId := Nat

/-- What an expression carries besides its parts. -/
structure Mark where
  id : NodeId
  location : Location := {}

structure InterfaceDecl where
  name : Ident
  typeParams : List TypeParamDecl
  bases : List Ident
  properties : List PropertyDecl
  location : Location

structure AliasDecl where
  name : Ident
  typeParams : List TypeParamDecl
  type : Annotation
  location : Location

mutual

inductive Expr where
  | literal (mark : Mark) (kind : LiteralKind) (text : String)
  | template (mark : Mark) (parts : List Expr)
  | ident (mark : Mark) (name : String)
  | paren (mark : Mark) (x : Expr)
  | binary (mark : Mark) (x : Expr) (op : Operator) (y : Expr)
  | unary (mark : Mark) (op : Operator) (x : Expr)
  | stepBefore (mark : Mark) (op : Operator) (x : Expr)
  | stepAfter (mark : Mark) (x : Expr) (op : Operator)
  | assign (mark : Mark) (target : Expr) (op : Operator) (value : Expr)
  | call (mark : Mark) (callee : Expr) (typeArgs : List Annotation) (args : List Expr)
  | construct (mark : Mark) (cls : Ident) (typeArgs : List Annotation) (args : List Expr)
  | select (mark : Mark) (x : Expr) (field : Ident)
  | optionalSelect (mark : Mark) (x : Expr) (field : Ident)
  | methodCall (mark : Mark) (x : Expr) (method : Ident) (typeArgs : List Annotation)
      (args : List Expr)
  | index (mark : Mark) (x : Expr) (i : Expr)
  | await (mark : Mark) (x : Expr)
  | this (mark : Mark)
  | super (mark : Mark)
  | typeOf (mark : Mark) (x : Expr)
  | instanceOf (mark : Mark) (x : Expr) (cls : Ident)
  | range (mark : Mark) (start stop : Expr)
  | conditional (mark : Mark) (cond yes no : Expr)
  | coalesce (mark : Mark) (x y : Expr)
  | nonNull (mark : Mark) (x : Expr)
  | matchExpr (mark : Mark) (subject : Expr) (arms : List MatchArm)
  | classExpr (mark : Mark) (decl : ClassDecl)
  | namelessClass (mark : Mark)
  | list (mark : Mark) (elements : List Expr)
  | object (mark : Mark) (entries : List ObjectEntry)
  | arrow (mark : Mark) (params : List ParamDecl) (result : Annotation) (body : FunctionBody)
      (isAsync : Bool)
  | spread (mark : Mark) (x : Expr)

/-- One arm of a match; without a pattern it takes everything. -/
inductive MatchArm where
  | case (pattern : Expr) (body : Expr)
  | otherwise (body : Expr)

/-- One entry of an object literal. -/
inductive ObjectEntry where
  | property (key : Ident) (value : Expr)
  | spread (x : Expr)

inductive FunctionBody where
  | missing
  | block (b : Block)
  | expr (x : Expr)

structure Block where
  nodes : List Node
  location : Location

/-- A function, method or constructor. -/
structure Callable where
  id : NodeId
  name : Ident
  typeParams : List TypeParamDecl
  params : List ParamDecl
  result : Annotation
  body : FunctionBody
  isAsync : Bool
  visibility : Visibility
  isStatic : Bool
  location : Location

/-- A class property with an optional initial value. -/
structure FieldDecl where
  name : Ident
  type : Annotation
  value : Option Expr
  visibility : Visibility
  isStatic : Bool
  isReadonly : Bool
  location : Location

structure ClassDecl where
  id : NodeId
  name : Ident
  typeParams : List TypeParamDecl
  parent : Option Ident
  fields : List FieldDecl
  methods : List Callable
  ctor : Option Callable
  isAbstract : Bool
  location : Location

structure EnumMemberDecl where
  name : Ident
  value : Option Expr

structure EnumDecl where
  name : Ident
  members : List EnumMemberDecl
  location : Location

/-- One clause of a switch; without values it is the default. -/
structure SwitchClause where
  values : List Expr
  body : Block

inductive Node where
  | empty
  | block (b : Block)
  | varDecl (place : Location) (name : Ident) (type : Annotation) (value : Option Expr)
      (isConst : Bool)
  | exprStmt (place : Location) (x : Expr)
  | ret (place : Location) (value : Option Expr)
  | ifStmt (place : Location) (cond : Expr) (body : Block) (otherwise : Node)
  | whileLoop (place : Location) (cond : Expr) (body : Block)
  | forLoop (place : Location) (init : Node) (cond post : Option Expr) (body : Block)
  | forOf (place : Location) (var : Ident) (iterable : Expr) (body : Block)
  | switch (place : Location) (subject : Expr) (clauses : List SwitchClause)
  | breakStmt (place : Location)
  | continueStmt (place : Location)
  | throwStmt (place : Location) (x : Expr)
  | tryStmt (place : Location) (body : Block) (param : Option Ident) (handler final : Option Block)
  | function (f : Callable)
  | classDecl (c : ClassDecl)
  | interfaceDecl (i : InterfaceDecl)
  | enumDecl (e : EnumDecl)
  | aliasDecl (a : AliasDecl)
  | field (f : FieldDecl)
  | method (m : Callable)
  | expr (x : Expr)
  | typeNode (a : Annotation)

end

instance : Inhabited Expr := ⟨.this ⟨0, {}⟩⟩
instance : Inhabited MatchArm := ⟨.otherwise default⟩
instance : Inhabited ObjectEntry := ⟨.spread default⟩
instance : Inhabited FunctionBody := ⟨.missing⟩
instance : Inhabited Block := ⟨⟨[], {}⟩⟩
instance : Inhabited Callable :=
  ⟨⟨0, ⟨"", {}⟩, [], [], default, default, false, .pub, false, {}⟩⟩
instance : Inhabited FieldDecl := ⟨⟨⟨"", {}⟩, default, none, .pub, false, false, {}⟩⟩
instance : Inhabited ClassDecl := ⟨⟨0, ⟨"", {}⟩, [], none, [], [], none, false, {}⟩⟩
instance : Inhabited SwitchClause := ⟨⟨[], default⟩⟩
instance : Inhabited Node := ⟨.empty⟩

namespace Mark

/-- The mark of a node on one line. -/
def on (id : NodeId) (line column width : Int) : Mark :=
  ⟨id, .span line column (wrap64 (column + width))⟩

end Mark

namespace Expr

def ofNull (m : Mark) : Expr := literal m .null "null"

def ofBool (m : Mark) (b : Bool) : Expr := literal m .bool (if b then "true" else "false")

def ofString (m : Mark) (s : String) : Expr := literal m .string s

def ofInt (m : Mark) (n : Int) : Expr := literal m .int (toString n)

/-- The negated condition. -/
def negate (m : Mark) (x : Expr) : Expr := unary m .not x

end Expr

end TypedScript
