/-!
# Positions and spans

Places in a source text, with lines and columns counted from one. Either end of a
span may be unknown, and a span may name its file.
-/
namespace TypedScript

structure Position where
  line : Int
  column : Int
  deriving DecidableEq

namespace Position

/-- The position comes strictly before the other one. -/
def before (p q : Position) : Bool :=
  if p.line ≠ q.line then decide (p.line < q.line) else decide (p.column < q.column)

def text (p : Position) : String := toString p.line ++ ":" ++ toString p.column

end Position

structure Location where
  start : Option Position := none
  stop : Option Position := none
  file : Option String := none
  deriving DecidableEq

namespace Location

/-- Both ends, where both are known. -/
def ends? (l : Location) : Option (Position × Position) :=
  match l.start, l.stop with
  | some p, some q => some (p, q)
  | _, _ => none

def isValid (l : Location) : Bool := l.ends?.isSome

/-- The name of the file, empty when the span is tied to none. -/
def fileName (l : Location) : String := l.file.getD ""

/-- The columns from `column` up to `stop` of one line. -/
def span (line column stop : Int) : Location where
  start := some ⟨line, column⟩
  stop := some ⟨line, stop⟩

/-- From the start of one place to the stop of another, if both are known, and else the first
place. -/
def upTo (first last : Location) : Location :=
  match first.start, last.stop with
  | some start, some stop => ⟨some start, some stop, first.file⟩
  | _, _ => first

def contains (l : Location) (p : Position) : Bool :=
  match l.ends? with
  | some (first, last) => !p.before first && !last.before p
  | none => false

def text (l : Location) : String :=
  match l.ends? with
  | some (first, last) => "location(" ++ first.text ++ " - " ++ last.text ++ ")"
  | none => "location(unknown)"

end Location

end TypedScript
