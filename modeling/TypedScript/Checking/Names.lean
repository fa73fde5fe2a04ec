import TypedScript.Checking.Calls

/-!
# Names

What identifiers, `this` and `super` stand for, and which of them may be assigned.
-/
namespace TypedScript

namespace Symbol

/-- The symbol is a function whose result is not known yet. -/
def awaitsResult (x : Symbol) : Bool :=
  x.kind = .function && (x.type.bind Ty.signature?).any fun sig => sig.result.isUnknown

end Symbol

namespace Name

open Check

def undefined {α : Type} (place : Location) (name : String) : Check α := do
  fail (.undefinedSymbol (← file) (some place) name)

/-- The value of a name. Classes and enums stand for themselves; other types are no
values. -/
def value (d : Demand) (place : Location) (name : String) : Check Ty := do
  match (← get).narrowed? name with
  | some t => return t
  | none =>
    match ← lookup? name with
    | none => undefined place name
    | some x =>
      match x.kind with
      | .cls | .enum => return x.type.getD .unknown
      | kind =>
        if x.awaitsResult then d.function x
        if kind.isType then
          invalidOperation place (name ++ " is a " ++ kind.name ++ ", not a value")
        else deref ((← currentType? x).getD .unknown)

/-- The declared type of a variable that is assigned to. -/
def target (m : Mark) (name : String) : Check Ty := do
  match ← lookup? name with
  | none => undefined m.location name
  | some x =>
    if x.kind.isType || x.kind = .function then
      refuse Code.invalidAssignment m.location "not a variable"
        ("cannot assign to " ++ x.kind.name ++ " " ++ name)
    else if x.isConst then
      refuse Code.constantReassignment m.location "declared with const"
        ("cannot assign to constant " ++ name) "declare it with let to allow reassignment"
    else
      let t ← deref (x.type.getD .unknown)
      record m.id t
      return t

/-- An expression that nothing can be assigned to. -/
def noTarget (place : Location) : Check Ty :=
  refuse Code.invalidAssignment place "cannot be assigned" "invalid assignment target"

def this (place : Location) : Check Ty := do
  let s ← get
  if s.className = "" then misplaced Code.invalidThis place "this outside a class"
  else if s.function.any FunctionContext.isStatic then
    misplaced Code.invalidThis place "this inside a static member"
      "static members have no instance"
  else
    match s.scopes.classNamed? s.className with
    | some c => return .cls c
    | none => misplaced Code.invalidThis place "this outside a class"

/-- Demand that a name stands for a class. -/
def demandClass (name : Ident) : Check Unit := do
  match ← lookup? name.name with
  | none => undefined name.location name.name
  | some x =>
    if x.kind ≠ .cls then fail (.notAClass (← file) (some name.location) name.name)

end Name

end TypedScript
