/-!
# Operators and kinds of literals

The operator tokens of expressions and their classes. Any other token text is kept as
it is, so that a message can show it.
-/
namespace TypedScript

inductive Operator where
  | and | or
  | bitAnd | bitOr | bitXor | bitNot | shl | shr | ushr
  | not
  | exp | minus | plus | mul | div | mod
  | lessEq | greaterEq | notEq | eq | less | greater
  | range | increment | decrement
  | assign
  | plusAssign | minusAssign | mulAssign | divAssign | modAssign | expAssign
  | andAssign | orAssign | xorAssign | shlAssign | shrAssign
  | other (text : String)
  deriving DecidableEq

namespace Operator

def text : Operator → String
  | and => "&&"
  | or => "||"
  | bitAnd => "&"
  | bitOr => "|"
  | bitXor => "^"
  | bitNot => "~"
  | shl => "<<"
  | shr => ">>"
  | ushr => ">>>"
  | not => "!"
  | exp => "**"
  | minus => "-"
  | plus => "+"
  | mul => "*"
  | div => "/"
  | mod => "%"
  | lessEq => "<="
  | greaterEq => ">="
  | notEq => "!="
  | eq => "=="
  | less => "<"
  | greater => ">"
  | range => ".."
  | increment => "++"
  | decrement => "--"
  | assign => "="
  | plusAssign => "+="
  | minusAssign => "-="
  | mulAssign => "*="
  | divAssign => "/="
  | modAssign => "%="
  | expAssign => "**="
  | andAssign => "&="
  | orAssign => "|="
  | xorAssign => "^="
  | shlAssign => "<<="
  | shrAssign => ">>="
  | other text => text

/-- The operators with a text of their own. -/
def known : List Operator :=
  [and, or, bitAnd, bitOr, bitXor, bitNot, shl, shr, ushr, not, exp, minus, plus, mul, div, mod,
   lessEq, greaterEq, notEq, eq, less, greater, range, increment, decrement, assign,
   plusAssign, minusAssign, mulAssign, divAssign, modAssign, expAssign,
   andAssign, orAssign, xorAssign, shlAssign, shrAssign]

def ofText (s : String) : Operator :=
  (known.find? fun op => op.text == s).getD (other s)

@[simp] theorem text_ofText (s : String) : (ofText s).text = s := by
  unfold ofText
  cases h : known.find? fun op => op.text == s with
  | none => rfl
  | some op => simpa using List.find?_some h

/-- The binary operator that a compound assignment applies. -/
def compound? : Operator → Option Operator
  | plusAssign => some plus
  | minusAssign => some minus
  | mulAssign => some mul
  | divAssign => some div
  | modAssign => some mod
  | expAssign => some exp
  | andAssign => some bitAnd
  | orAssign => some bitOr
  | xorAssign => some bitXor
  | shlAssign => some shl
  | shrAssign => some shr
  | _ => none

def isAssignment (op : Operator) : Bool := op = assign || op.compound?.isSome

def isArithmetic : Operator → Bool
  | plus | minus | mul | div | mod | exp => true
  | _ => false

def isBitwise : Operator → Bool
  | bitAnd | bitOr | bitXor | shl | shr | ushr => true
  | _ => false

def isOrdering : Operator → Bool
  | less | greater | lessEq | greaterEq => true
  | _ => false

def isEquality : Operator → Bool
  | eq | notEq => true
  | _ => false

def isLogical : Operator → Bool
  | and | or => true
  | _ => false

end Operator

/-- What a literal is a literal of; `other` is a kind that the language does not have. -/
inductive LiteralKind where
  | int | float | string | bool | null | other
  deriving DecidableEq

namespace LiteralKind

def name : LiteralKind → String
  | int => "INT"
  | float => "FLOAT"
  | string => "STRING"
  | bool => "BOOL"
  | null => "NULL"
  | other => "OTHER"

def ofName (s : String) : LiteralKind :=
  ([int, float, string, bool, null].find? fun k => k.name == s).getD other

end LiteralKind

end TypedScript
