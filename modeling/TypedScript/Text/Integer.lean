/-!
# Integers

Columns and enum values are signed integers of 64 bits; their sums and differences go
round.

The integers that a literal's text can denote are not bounded: an optional sign, an
optional base marker (`0b`, `0o`, `0x`, or a leading `0` for octal), then digits. A single
underscore may stand between two digits, or between the base marker and a digit.
-/
namespace TypedScript

/-- The integer of 64 bits that agrees with `n` in its low bits. -/
def wrap64 (n : Int) : Int := Int.bmod n 0x10000000000000000

/-- The integer has 64 bits. -/
def isWord (n : Int) : Bool := decide (-0x8000000000000000 ≤ n ∧ n ≤ 0x7fffffffffffffff)

namespace Text

/-- The value of a digit, for bases up to thirty-six. -/
def digitValue? (c : Char) : Option Nat :=
  if '0' ≤ c && c ≤ '9' then some (c.toNat - '0'.toNat)
  else if 'a' ≤ c && c ≤ 'z' then some (c.toNat - 'a'.toNat + 10)
  else if 'A' ≤ c && c ≤ 'Z' then some (c.toNat - 'A'.toNat + 10)
  else none

/-- Read the rest of a number. `afterDigit` says that the character before was a digit
or the base marker, so that an underscore may follow. -/
def readDigits? (base : Nat) : List Char → Bool → Nat → Option Nat
  | [], afterDigit, n => if afterDigit then some n else none
  | '_' :: cs, afterDigit, n => if afterDigit then readDigits? base cs false n else none
  | c :: cs, _, n =>
    match digitValue? c with
    | some d => if d < base then readDigits? base cs true (n * base + d) else none
    | none => none

/-- A number after a base marker; at least one digit is needed. -/
def readMarked? (base : Nat) (cs : List Char) : Option Nat :=
  if cs.isEmpty then none else readDigits? base cs true 0

/-- A number without its sign. -/
def readNatural? : List Char → Option Nat
  | [] => none
  | ['0'] => some 0
  | '0' :: 'b' :: cs => readMarked? 2 cs
  | '0' :: 'B' :: cs => readMarked? 2 cs
  | '0' :: 'o' :: cs => readMarked? 8 cs
  | '0' :: 'O' :: cs => readMarked? 8 cs
  | '0' :: 'x' :: cs => readMarked? 16 cs
  | '0' :: 'X' :: cs => readMarked? 16 cs
  | '0' :: cs => readDigits? 8 cs true 0
  | cs => readDigits? 10 cs false 0

/-- The integer that a text denotes. -/
def readInteger? (s : String) : Option Int :=
  match s.toList with
  | '-' :: cs => (readNatural? cs).map fun n : Nat => -(n : Int)
  | '+' :: cs => (readNatural? cs).map Int.ofNat
  | cs => (readNatural? cs).map Int.ofNat

/-- The text denotes an integer of 64 bits. -/
def readInt64? (s : String) : Option Int :=
  match readInteger? s with
  | some n => if isWord n then some n else none
  | none => none

end Text

end TypedScript
