/-!
# Primitive types

The scalar types, their spellings, and the widening order of the numeric ones.

Signed kinds stand in one chain of tiers, and kinds of one tier widen into each
other. Unsigned kinds have a chain of their own, and each enters the signed chain
one tier above its own rank, the first tier that holds all its values.
-/
namespace TypedScript

inductive Prim where
  | int | float | i8 | i16 | i32 | i64 | u8 | u16 | u32 | u64 | f32 | f64 | decimal
  | str | bool | null | void | any | unknown | symbol | date | regex | error
  deriving DecidableEq

namespace Prim

/-- Every primitive, in the order of their kind numbers. -/
def all : List Prim :=
  [int, float, i8, i16, i32, i64, u8, u16, u32, u64, f32, f64, decimal,
   str, bool, null, void, any, unknown, symbol, date, regex, error]

theorem mem_all (p : Prim) : p ∈ all := by cases p <;> decide

/-- The name shown to the user. -/
def name : Prim → String
  | int => "Int"
  | float => "Float"
  | i8 => "I8"
  | i16 => "I16"
  | i32 => "I32"
  | i64 => "I64"
  | u8 => "U8"
  | u16 => "U16"
  | u32 => "U32"
  | u64 => "U64"
  | f32 => "F32"
  | f64 => "F64"
  | decimal => "Decimal"
  | str => "Str"
  | bool => "Bool"
  | null => "Null"
  | void => "Void"
  | any => "Any"
  | unknown => "Unknown"
  | symbol => "Symbol"
  | date => "Date"
  | regex => "Regex"
  | error => "Error"

/-- The primitive spelled so in a type annotation. -/
def ofSpelling? : String → Option Prim
  | "int" => some int
  | "float" => some float
  | "i8" => some i8
  | "i16" => some i16
  | "i32" => some i32
  | "i64" => some i64
  | "u8" => some u8
  | "u16" => some u16
  | "u32" => some u32
  | "u64" => some u64
  | "f32" => some f32
  | "f64" => some f64
  | "decimal" => some decimal
  | "str" => some str
  | "string" => some str
  | "bool" => some bool
  | "boolean" => some bool
  | "null" => some null
  | "void" => some void
  | "any" => some any
  | "unknown" => some unknown
  | "symbol" => some symbol
  | "date" => some date
  | "regex" => some regex
  | "error" => some error
  | _ => none

/-- The tier of a signed or floating kind. -/
def signedRank : Prim → Option Nat
  | i8 => some 0
  | i16 => some 1
  | i32 => some 2
  | i64 => some 3
  | int => some 3
  | float => some 4
  | f32 => some 4
  | f64 => some 5
  | decimal => some 6
  | _ => none

/-- The tier of an unsigned kind in its own chain. -/
def unsignedRank : Prim → Option Nat
  | u8 => some 0
  | u16 => some 1
  | u32 => some 2
  | u64 => some 3
  | _ => none

def isUnsigned (p : Prim) : Bool := p.unsignedRank.isSome

def isNumeric (p : Prim) : Bool := p.signedRank.isSome || p.unsignedRank.isSome

def isInteger : Prim → Bool
  | int | i8 | i16 | i32 | i64 | u8 | u16 | u32 | u64 => true
  | _ => false

def isFloat : Prim → Bool
  | float | f32 | f64 | decimal => true
  | _ => false

/-- The types that accept every value. -/
def isAbsorbing : Prim → Bool
  | any | unknown => true
  | _ => false

/-- A value of kind `p` may be used where `q` is expected. -/
def canWiden (p q : Prim) : Bool :=
  if p = q then p.isNumeric
  else
    match p.signedRank, p.unsignedRank with
    | some r, _ =>
      match q.signedRank with
      | some s => decide (r ≤ s)
      | none => false
    | none, some r =>
      match q.unsignedRank, q.signedRank with
      | some s, _ => decide (r ≤ s)
      | none, some s => decide (r + 1 ≤ s)
      | none, none => false
    | none, none => false

/-- Candidates for the join of a signed and an unsigned kind, smallest first. -/
def joinOrder : List Prim := [i16, i32, i64, float, f64, decimal]

/-- The smallest kind that both operands widen into; within one tier the first
operand is kept. -/
def wider (p q : Prim) : Prim :=
  if p = q then p
  else
    match p.signedRank, q.signedRank with
    | some r, some s => if s ≤ r then p else q
    | _, _ =>
      if q.canWiden p then p
      else if p.canWiden q then q
      else (joinOrder.find? fun c => p.canWiden c && q.canWiden c).getD decimal

/-- Kinds whose quotient needs double precision. -/
def dividesWide : Prim → Bool
  | decimal | f64 | i64 | u64 => true
  | _ => false

/-- The kind of a quotient. -/
def quotient (p q : Prim) : Prim :=
  if p.dividesWide || q.dividesWide then f64
  else if p = f32 || q = f32 then f32
  else float

/-- The least and the greatest value of an integer kind. -/
def range? : Prim → Option (Int × Int)
  | i8 => some (-0x80, 0x7f)
  | i16 => some (-0x8000, 0x7fff)
  | i32 => some (-0x80000000, 0x7fffffff)
  | i64 | int => some (-0x8000000000000000, 0x7fffffffffffffff)
  | u8 => some (0, 0xff)
  | u16 => some (0, 0xffff)
  | u32 => some (0, 0xffffffff)
  | u64 => some (0, 0xffffffffffffffff)
  | _ => none

end Prim

end TypedScript
