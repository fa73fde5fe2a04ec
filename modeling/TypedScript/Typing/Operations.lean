import TypedScript.Report.Catalogue
import TypedScript.Syntax.Operator
import TypedScript.Type.Assignability

/-!
# Typing operators

Which operands an operator takes and what type it gives. A refusal is a diagnostic
without a place; whoever asked knows the place.
-/
namespace TypedScript.Typing

/-- A type, or why there is none. -/
abbrev Verdict := Except Diagnostic Ty

def invalidOperation (message : String) : Diagnostic :=
  (Diagnostic.error message).withCode Code.invalidOperation

/-- Operators work on a type that is not known yet as on any. -/
def operand (t : Ty) : Ty := if t.isUnknown then .any else t

/-- The numeric primitives behind two operands. -/
def numericPair? (x y : Ty) : Option (Prim × Prim) :=
  match x, y with
  | .prim p, .prim q => if p.isNumeric && q.isNumeric then some (p, q) else none
  | _, _ => none

/-- The integer primitives behind two operands. -/
def integerPair? (x y : Ty) : Option (Prim × Prim) :=
  match x, y with
  | .prim p, .prim q => if p.isInteger && q.isInteger then some (p, q) else none
  | _, _ => none

/-- A range runs between integers and is a list of them. -/
def range (start stop : Ty) : Verdict :=
  if (start.isInteger || start.isAny) && (stop.isInteger || stop.isAny) then .ok (.list .int)
  else
    .error (invalidOperation
      ("range bounds must be integers, got " ++ start.text ++ " and " ++ stop.text))

/-- Arithmetic widens its operands; a sum with a string is a string. -/
def arithmetic (op : Operator) (x y : Ty) : Verdict :=
  if x.isAny || y.isAny then .ok .any
  else if op = .plus && (x.isStr || y.isStr) then .ok .str
  else
    match numericPair? x y with
    | some (p, q) => .ok (.prim (if op = .div then p.quotient q else p.wider q))
    | none =>
      .error ((invalidOperation
        ("operator " ++ op.text ++ " cannot be applied to " ++ x.text ++ " and " ++ y.text)).withHelp
        "arithmetic needs numeric operands; only + also accepts Str")

/-- Integer operands of which neither widens into the other give an int. -/
def bitwise (op : Operator) (x y : Ty) : Verdict :=
  if x.isAny || y.isAny then .ok .any
  else
    match integerPair? x y with
    | some (p, q) =>
      .ok (.prim (if p.canWiden q then q else if q.canWiden p then p else .int))
    | none =>
      .error (invalidOperation ("operator " ++ op.text ++ " requires integer operands, got " ++
        x.text ++ " and " ++ y.text))

/-- Numbers compare with numbers, and everything with its own type. -/
def ordering (op : Operator) (x y : Ty) : Verdict :=
  if x.isAny || y.isAny || (numericPair? x y).isSome || x.equals y then .ok .bool
  else
    .error (invalidOperation
      ("cannot compare " ++ x.text ++ " and " ++ y.text ++ " with " ++ op.text))

def binary (op : Operator) (x y : Ty) : Verdict :=
  if op.isEquality then .ok .bool
  else if op.isLogical then
    if x.isBool && y.isBool then .ok .bool
    else
      .error (invalidOperation ("operator " ++ op.text ++ " requires Bool operands, got " ++
        x.text ++ " and " ++ y.text))
  else if op.isOrdering then ordering op x y
  else if op.isBitwise then bitwise op x y
  else if op.isArithmetic then arithmetic op x y
  else if op = .range then range x y
  else .error (invalidOperation ("unsupported binary operator " ++ op.text))

def unary (op : Operator) (x : Ty) : Verdict :=
  if x.isAny then .ok (if op = .not then .bool else .any)
  else
    let refused := Except.error (invalidOperation
      ("operator " ++ op.text ++ " cannot be applied to " ++ x.text))
    match op with
    | .minus | .plus => if x.isNumeric then .ok x else refused
    | .not => if x.isBool then .ok .bool else refused
    | .bitNot => if x.isInteger then .ok x else refused
    | _ => .error (invalidOperation ("unsupported unary operator " ++ op.text))

/-- Increment and decrement. -/
def step (op : Operator) (x : Ty) : Verdict :=
  if x.isNumeric || x.isAny then .ok x
  else
    .error (invalidOperation
      ("operator " ++ op.text ++ " requires a numeric operand, got " ++ x.text))

/-- Why a value may not be stored in a target, or `none` when it may. -/
def assign? (value target : Ty) : Option Diagnostic :=
  match value.mismatch? target with
  | none => none
  | some (.unresolved name) =>
    some ((Diagnostic.error
      ("cannot check assignability of unresolved type reference " ++ name)).withCode
        Code.unresolvedReference)
  | some (.notAssignable v t) =>
    some ((Diagnostic.error (v.text ++ " not assignable to " ++ t.text)).withCode
      Code.typeMismatch)

/-- A compound assignment: the operator must take the operands, and its result must fit
the target, whose type the expression has. -/
def compound (op : Operator) (target value : Ty) : Verdict :=
  match op.compound? with
  | none => .error (invalidOperation (op.text ++ " is not a compound assignment"))
  | some bin =>
    match binary bin target value with
    | .error d => .error d
    | .ok result =>
      match assign? result target with
      | none => .ok target
      | some d =>
        let d := if d.code = Code.typeMismatch then d.withCode Code.invalidAssignment else d
        .error (d.withNote (op.text ++ " produces " ++ result.text))

/-- A list or a string takes an integer index, a map its key. -/
def index (object i : Ty) : Verdict :=
  if object.isAny then .ok .any
  else
    match object with
    | .map key value =>
      match assign? i key with
      | none => .ok value
      | some _ =>
        .error ((Diagnostic.error
          ("map key must be " ++ key.text ++ ", got " ++ i.text)).withCode Code.typeMismatch)
    | _ =>
      if !i.isInteger && !i.isAny then
        .error ((Diagnostic.error ("index must be an integer, got " ++ i.text)).withCode
          Code.typeMismatch)
      else
        match object with
        | .list t => .ok t
        | .prim .str => .ok .str
        | _ =>
          .error ((Diagnostic.error ("type " ++ object.text ++ " cannot be indexed")).withCode
            Code.notIndexable)

/-- The type that a loop variable takes from what it runs over. -/
def iteration? : Ty → Option Ty
  | .list t => some t
  | .map key _ => some key
  | .prim .str => some .str
  | .prim .any => some .any
  | .prim .unknown => some .any
  | _ => none

end TypedScript.Typing
