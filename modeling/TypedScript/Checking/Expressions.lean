import TypedScript.Checking.Calls
import TypedScript.Typing.Literals

/-!
# Expressions

The typing rule of each form of expression, over checks of its parts. The order in
which parts are checked is part of the rule: it decides which fault is met first.
-/
namespace TypedScript

namespace Part

/-- The part is a number, perhaps in parentheses. -/
def isNumeral (p : Part) : Bool :=
  match p.expr.unparen with
  | .literal _ .int _ | .literal _ .float _ => true
  | _ => false

end Part

/-- One arm of a match with checks of its parts. -/
structure Arm where
  pattern : Option Part
  body : Part

namespace Rule

open Check Typing

/-- Note the type that a check finds. -/
def recorded (m : Mark) (c : Check Ty) : Check Ty := do
  let t ← c
  record m.id t
  return t

/-- Check parts of which nothing is expected. -/
def each : List Part → Check Unit
  | [] => return
  | p :: ps => do
    let _ ← p.check none
    each ps

/-- A template is a string whatever stands in it. -/
def template (parts : List Part) : Check Ty := do
  each parts
  return .str

/-- A number takes its type from the other operand. -/
def binary (place : Location) (x : Part) (op : Operator) (y : Part) : Check Ty := do
  if x.isNumeral && !y.isNumeral then
    let ty ← y.check none
    let tx ← x.check (Hint.numeric ty)
    settle place "invalid operands" (Typing.binary op (operand tx) (operand ty))
  else
    let tx ← x.check none
    let ty ← y.check (Hint.numeric tx)
    settle place "invalid operands" (Typing.binary op (operand tx) (operand ty))

/-- What an expression tells as a condition. -/
def outcomes (e : Expr) : Check Outcomes := return Condition.analyze (← get).surroundings e

/-- Run a check where narrowings hold. -/
def narrowed {α : Type} (n : Narrowings) (body : Check α) : Check α :=
  during (fun s => s.pushNarrowings n) body

/-- The right operand of `&&` and `||` is reached only after one outcome of the left. -/
def logical (place : Location) (x : Part) (op : Operator) (y : Part) : Check Ty := do
  let tx ← x.check (some .bool)
  let o ← outcomes x.expr
  let ty ← narrowed (if op = .or then o.fails else o.holds) (y.check (some .bool))
  if tx.isAbsorbing || ty.isAbsorbing then return .bool
  settle place "invalid operands" (Typing.binary op tx ty)

/-- The hint that a unary operator passes on. -/
def operandHint (op : Operator) (expected : Hint) : Hint :=
  match op with
  | .not => some .bool
  | .minus | .plus | .bitNot => expected.bind Hint.numeric
  | _ => none

/-- A negated integer must fit its type as a whole. -/
def unary (place : Location) (op : Operator) (x : Part) (expected : Hint) : Check Ty := do
  match op, x.expr.unparen with
  | .minus, .literal _ .int text =>
    let t ← settle place "literal out of range" (literal .int ("-" ++ text) expected)
    record x.expr.id t
    return t
  | _, _ =>
    let t ← x.check (operandHint op expected)
    settle place "invalid operand" (Typing.unary op (operand t))

/-- Increment or decrement of an assignment target. -/
def step (place : Location) (op : Operator) (target : Check Ty) : Check Ty := do
  let t ← target
  settle place "invalid operand" (Typing.step op (operand t))

/-- An assigned variable loses what was known about it. -/
def assign (place : Location) (lhs : Expr) (target : Check Ty) (op : Operator) (value : Part) :
    Check Ty := do
  let t ← target
  if op = .assign then
    let v ← value.check (some t)
    assignable value.location v t ("expected " ++ t.text)
  else
    let v ← value.check (Hint.numeric t)
    let _ ← settle place "invalid compound assignment" (compound op (operand t) (operand v))
  if let some name := lhs.name? then modify fun s => s.forget name t
  return t

def index (place : Location) (x i : Part) : Check Ty := do
  let object ← x.check none
  let hint := match object with
    | .map key _ => key
    | _ => .int
  let t ← i.check (some hint)
  settle place "invalid index" (Typing.index (operand object) (operand t))

def range (place : Location) (start stop : Part) : Check Ty := do
  let first ← start.check (some .int)
  let last ← stop.check (some .int)
  settle place "invalid range" (Typing.range (operand first) (operand last))

def await (place : Location) (x : Part) (expected : Hint) : Check Ty := do
  if !(← get).inAsync then
    misplaced Code.invalidAwait place "await outside an async function"
      "mark the enclosing function async"
  let t ← x.check (expected.map Ty.future)
  if t.isAbsorbing then return .any
  match t with
  | .future inner => return inner
  | _ => typeMismatch x.location ("expected Future<T>, found " ++ t.text)

/-- A condition must be boolean. -/
def condition (c : Part) : Check Outcomes := do
  let t ← c.check (some .bool)
  if !t.isBool && !t.isAbsorbing then
    typeMismatch c.location ("condition must be Bool, found " ++ t.text)
  else outcomes c.expr

def common (ts : List Ty) : Check Ty := return Ty.common ts (← unionWidth)

def conditional (cond yes no : Part) (expected : Hint) : Check Ty := do
  let o ← condition cond
  let a ← narrowed o.holds (yes.check expected)
  let b ← narrowed o.fails (no.check expected)
  common [a, b]

/-- The second operand stands in for a null first one. -/
def coalesce (x y : Part) (expected : Hint) : Check Ty := do
  let present := (← x.check expected).stripNull
  let t ← y.check (expected.or (some present))
  common [present, t]

def nonNull (x : Part) (expected : Hint) : Check Ty := return (← x.check expected).stripNull

/-- The pattern `_` takes everything and is not looked at. -/
def pattern (subject : Ty) : Option Part → Check Unit
  | none => return
  | some p => do
    if p.expr.name? ≠ some "_" then
      let _ ← p.check (some subject)

/-- The types of the bodies of arms. -/
def arms (subject : Ty) (expected : Hint) : List Arm → Check (List Ty)
  | [] => return []
  | a :: as => do
    pattern subject a.pattern
    let t ← a.body.check expected
    match expected with
    | some want =>
      if expected.isInformative then
        assignable a.body.location t want ("expected " ++ want.text)
    | none => pure ()
    return t :: (← arms subject expected as)

def matching (subject : Part) (as : List Arm) (expected : Hint) : Check Ty := do
  let t ← subject.check none
  let ts ← arms t expected as
  match expected with
  | some want => if want.isAbsorbing then common ts else return want
  | none => common ts

/-- A call; calling `super` calls the superclass constructor. -/
def call (place : Location) (callee : Part) (typeArgs : List Annotation)
    (args : List Argument) : Check Ty := do
  match callee.expr.unparen with
  | .super _ => Call.superConstructor place callee.expr.mark args
  | _ =>
    let f ← callee.check none
    let explicit ← meanings typeArgs
    Call.value place f explicit args

def methodCall (d : Demand) (place : Location) (x : Part) (method : Ident)
    (typeArgs : List Annotation) (args : List Argument) : Check Ty := do
  let receiver ← x.check none
  let f ← Member.typeOf d x.expr.name? receiver method
  let explicit ← meanings typeArgs
  Call.value place f explicit args

def select (d : Demand) (x : Part) (field : Ident) : Check Ty := do
  Member.typeOf d x.expr.name? (← x.check none) field

def optionalSelect (d : Demand) (x : Part) (field : Ident) : Check Ty := do
  Member.optionalType d x.expr.name? (← x.check none) field

/-- A field as an assignment target. -/
def selectTarget (d : Demand) (x : Part) (field : Ident) : Check Ty := do
  Member.targetType d x.expr.name? (← x.check none) field

/-- A spread stands for nothing by itself. -/
def spread (place : Location) : Check Ty :=
  misplaced Code.invalidSpread place
    "spread is only allowed in list literals, object literals and call arguments"

end Rule

end TypedScript
