import TypedScript.Type.Prim

/-!
# Kinds

The discriminant of a type: one kind for each primitive and one for each way of
building a type. The numeric order of primitives extends to kinds, where a
composite kind widens into nothing.
-/
namespace TypedScript

inductive Kind where
  | prim (p : Prim)
  | list | map | nullable | union | function | interface | cls | enum
  | future | ref | param | generic
  deriving DecidableEq

namespace Kind

/-- Every kind, in the order of the kind numbers. -/
def all : List Kind :=
  Prim.all.map prim ++
    [list, map, nullable, union, function, interface, cls, enum, future, ref, param, generic]

/-- The kind with this number. -/
def ofNumber? (n : Int) : Option Kind :=
  if n < 0 then none else all[n.toNat]?

def name : Kind → String
  | prim p => p.name
  | list => "List"
  | map => "Map"
  | nullable => "Nullable"
  | union => "Union"
  | function => "Function"
  | interface => "Interface"
  | cls => "Class"
  | enum => "Enum"
  | future => "Future"
  | ref => "TypeRef"
  | param => "TypeParam"
  | generic => "Generic"

/-- The name of a kind, with a word for numbers that name none. -/
def nameOf : Option Kind → String
  | some k => k.name
  | none => "Invalid"

/-- The kind shown under this name. -/
def ofName? (s : String) : Option Kind := all.find? fun k => k.name == s

def prim? : Kind → Option Prim
  | prim p => some p
  | _ => none

def isPrimitive (k : Kind) : Bool := k.prim?.isSome

def isNumeric : Kind → Bool
  | prim p => p.isNumeric
  | _ => false

def isInteger : Kind → Bool
  | prim p => p.isInteger
  | _ => false

def isFloat : Kind → Bool
  | prim p => p.isFloat
  | _ => false

def isUnsigned : Kind → Bool
  | prim p => p.isUnsigned
  | _ => false

def canWiden : Kind → Kind → Bool
  | prim p, prim q => p.canWiden q
  | _, _ => false

/-- The join of two kinds; kinds that share no numeric tier join at the top of the
chain. -/
def wider (k l : Kind) : Kind :=
  if k = l then k
  else
    match k, l with
    | prim p, prim q => prim (p.wider q)
    | _, _ => prim .decimal

/-- The kind of a quotient; a composite operand decides nothing. -/
def quotient (k l : Kind) : Kind :=
  prim ((k.prim?.getD .int).quotient (l.prim?.getD .int))

end Kind

end TypedScript
