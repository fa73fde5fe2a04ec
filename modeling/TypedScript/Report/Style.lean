/-!
# Terminal styles

A style is a list of attributes. How text with attributes is written is up to a painter, which
has to leave the text alone where colour is off. Whatever it writes in colour can be stripped of
its escape sequences.
-/
namespace TypedScript

/-- What a terminal can do to text. -/
inductive Attribute where
  | bold | faint
  | red | green | yellow | blue | magenta | cyan | white
  | brightBlack | brightYellow
  deriving DecidableEq

/-- How text with attributes is written, with colour on or off. -/
structure Painter where
  /-- The text, printed. -/
  print (color : Bool) (attributes : List Attribute) (text : String) : String
  /-- The text as a line, printed. -/
  printLine (color : Bool) (attributes : List Attribute) (text : String) : String
  /-- The text, to become part of another. -/
  wrap (color : Bool) (attributes : List Attribute) (text : String) : String

inductive Style where
  | red | boldRed | green | yellow | orange | blue | boldBlue
  | purple | cyan | brown | grey | white | bold
  deriving DecidableEq

namespace Style

def all : List Style :=
  [red, boldRed, green, yellow, orange, blue, boldBlue, purple, cyan, brown, grey, white, bold]

def attributes : Style → List Attribute
  | red => [.red]
  | boldRed => [.red, .bold]
  | green => [.green]
  | yellow => [.yellow]
  | orange => [.brightYellow]
  | blue => [.blue]
  | boldBlue => [.blue, .bold]
  | purple => [.magenta]
  | cyan => [.cyan]
  | brown => [.yellow, .faint]
  | grey => [.brightBlack]
  | white => [.white]
  | bold => [.bold]

section Painter

variable (painter : Painter) (color : Bool) (s : Style) (text : String)

def paint : String := painter.print color s.attributes text

def paintLine : String := painter.printLine color s.attributes text

def wrap : String := painter.wrap color s.attributes text

end Painter

/-- The rest after an escape sequence's codes and final letter, given what follows its
bracket. -/
def afterSequence? : List Char → Option (List Char)
  | [] => none
  | c :: cs =>
    if c.isDigit || c = ';' then afterSequence? cs
    else if c.isAlpha then some cs
    else none

theorem afterSequence?_length {cs rest : List Char} (h : afterSequence? cs = some rest) :
    rest.length < cs.length := by
  induction cs with
  | nil => simp [afterSequence?] at h
  | cons c cs ih =>
    unfold afterSequence? at h
    split at h
    · exact Nat.lt_succ_of_lt (ih h)
    · split at h
      · cases h
        simp
      · cases h

/-- A text without its escape sequences. -/
def stripChars (cs : List Char) : List Char :=
  match cs with
  | [] => []
  | '\x1b' :: '[' :: rest =>
    match h : afterSequence? rest with
    | some after =>
      have := afterSequence?_length h
      stripChars after
    | none => '\x1b' :: stripChars ('[' :: rest)
  | c :: rest => c :: stripChars rest
termination_by cs.length

def strip (text : String) : String := String.ofList (stripChars text.toList)

end Style

/-! ## Terminals -/

namespace Attribute

def code : Attribute → Nat
  | bold => 1
  | faint => 2
  | red => 31
  | green => 32
  | yellow => 33
  | blue => 34
  | magenta => 35
  | cyan => 36
  | white => 37
  | brightBlack => 90
  | brightYellow => 93

/-- The code that ends the attribute: weight has its own, all else ends together. -/
def resetCode : Attribute → Nat
  | bold | faint => 22
  | _ => 0

end Attribute

namespace Painter

/-- An escape sequence with these codes. -/
def sequence (codes : List Nat) : String :=
  "\x1b[" ++ ";".intercalate (codes.map toString) ++ "m"

/-- The text between escape sequences with these codes. -/
def between (color : Bool) (start stop : List Nat) (text : String) : String :=
  if color then sequence start ++ text ++ sequence stop else text

/-- The painter for terminals. What is printed is ended as a whole, and in a line or a part of
another text each attribute by its own code. -/
def terminal : Painter where
  print color attributes := between color (attributes.map Attribute.code) [0]
  printLine color attributes text :=
    between color (attributes.map Attribute.code) (attributes.map Attribute.resetCode) text ++ "\n"
  wrap color attributes :=
    between color (attributes.map Attribute.code) (attributes.map Attribute.resetCode)

end Painter

end TypedScript
