import TypedScript.Syntax.Tree

/-!
# Symbols

A symbol is what a name stands for in a scope. It keeps its number for life, so two
symbols of one name can be told apart while its type changes.
-/
namespace TypedScript

/-- The number of a symbol. -/
abbrev SymbolId := Nat

inductive SymbolKind where
  | var | constant | function | parameter
  | cls | interface | enum | typeAlias | typeParam | other
  deriving DecidableEq

namespace SymbolKind

def name : SymbolKind → String
  | var => "variable"
  | constant => "constant"
  | function => "function"
  | parameter => "parameter"
  | cls => "class"
  | interface => "interface"
  | enum => "enum"
  | typeAlias => "type alias"
  | typeParam => "type parameter"
  | other => "unknown"

def ofName (s : String) : SymbolKind :=
  ([var, constant, function, parameter, cls, interface, enum, typeAlias, typeParam].find?
    fun k => k.name == s).getD other

/-- Symbols of this kind name a type, not a value. -/
def isType : SymbolKind → Bool
  | cls | interface | enum | typeAlias | typeParam => true
  | _ => false

end SymbolKind

/-- Where a symbol was declared. -/
inductive Origin where
  | unknown
  | place (l : Location)
  | function (f : Callable)
  | cls (c : ClassDecl)
  | typeAlias (a : AliasDecl)

namespace Origin

def location? : Origin → Option Location
  | unknown => none
  | place l => some l
  | function f => some f.location
  | cls c => some c.location
  | typeAlias a => some a.location

def function? : Origin → Option Callable
  | function f => some f
  | _ => none

def class? : Origin → Option ClassDecl
  | cls c => some c
  | _ => none

end Origin

structure Symbol where
  id : SymbolId
  name : String
  kind : SymbolKind
  type : Option Ty
  isConst : Bool
  origin : Origin

/-- Why a symbol cannot be declared or changed. -/
inductive SymbolError where
  | redeclared (name : String)
  | undeclared (name : String)
  | shadowed (name : String)
  deriving DecidableEq

namespace SymbolError

def cause : SymbolError → String
  | redeclared _ => "symbol already declared"
  | undeclared name => "cannot update type of undeclared symbol '" ++ name ++ "'"
  | shadowed name => "cannot update type of '" ++ name ++ "': the name is shadowed here"

def message : SymbolError → String
  | redeclared name => "'" ++ name ++ "': symbol already declared"
  | undeclared name => (undeclared name).cause
  | shadowed name => (shadowed name).cause

end SymbolError

end TypedScript
