import TypedScript.Text.Integer
import TypedScript.Type.Hint
import TypedScript.Typing.Operations

/-!
# Typing literals

A number takes the numeric type expected of it, if it can: an integer any numeric type
that holds it, a fraction any floating type. Text that denotes no integer is accepted
unseen.
-/
namespace TypedScript

namespace Typing

/-- The integer denoted by a text lies in the range of an integer kind. -/
def literalFits (text : String) (p : Prim) : Bool :=
  match p.range?, Text.readInteger? text with
  | some (least, greatest), some n => decide (least ≤ n) && decide (n ≤ greatest)
  | _, _ => true

/-- The range of an integer kind in words. -/
def rangeText (p : Prim) : String :=
  match p.range? with
  | some (least, greatest) => toString least ++ " to " ++ toString greatest
  | none => ""

def outOfRange (text : String) (p : Prim) : Diagnostic :=
  (Diagnostic.error ("integer literal " ++ text ++ " does not fit in " ++ p.name))
    |>.withCode Code.typeMismatch
    |>.withHelp (p.name ++ " holds " ++ rangeText p)

def literal (kind : LiteralKind) (text : String) (expected : Hint) : Verdict :=
  match kind with
  | .int =>
    match expected.unwrap with
    | .prim p =>
      if p.isInteger then if literalFits text p then .ok (.prim p) else .error (outOfRange text p)
      else if p.isFloat then .ok (.prim p)
      else .ok .int
    | _ => .ok .int
  | .float =>
    match expected.unwrap with
    | .prim p => if p.isFloat then .ok (.prim p) else .ok (.prim .float)
    | _ => .ok (.prim .float)
  | .string => .ok .str
  | .bool => .ok .bool
  | .null => .ok .null
  | .other => .ok .unknown

end Typing

end TypedScript
