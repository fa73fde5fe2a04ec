import TypedScript.Checking.Members
import TypedScript.Typing.Access

/-!
# Calls

Matching arguments with a signature. A variadic signature takes any number of arguments
after its fixed parameters; each must fit the element type of the last parameter, and a
spread argument the list itself. A generic signature takes its type arguments as they
are written, or from the types of its arguments.
-/
namespace TypedScript

/-- A part of a construct: the expression and how to check it. -/
structure Part where
  expr : Expr
  check : Checker

namespace Part

def location (p : Part) : Location := p.expr.location

end Part

/-- An argument; of a spread one, the operand is checked. -/
structure Argument extends Part where
  isSpread : Bool

namespace Call

open Check

/-- Refuse a number of arguments that the signature does not take. -/
def checkCount (place : Location) (sig : Signature) (found : Nat) : Check Unit := do
  let n := sig.params.length
  if sig.isVariadic then
    if found + 1 < n then
      fail ((Diagnostic.wrongArgumentCount (← file) (some place) ((n : Int) - 1) found).withNote
        (sig.text ++ " takes at least " ++ toString ((n : Int) - 1) ++ " argument(s)"))
  else if found ≠ n then
    fail (.wrongArgumentCount (← file) (some place) n found)

/-- The bindings of type arguments that are written out. -/
def explicitBindings (place : Location) (sig : Signature) (explicit : List Ty) :
    Check (Option Subst) := do
  if explicit.isEmpty then return none
  if sig.typeParams.isEmpty then
    invalidOperation place (sig.text ++ " takes no type arguments")
  else
    match Typing.explicitArguments sig.typeParams explicit with
    | .ok s => return some s
    | .error d => fail (d.withPrimary (← file) (some place) "type arguments")

/-- The type of the parameter that takes the argument at a position. -/
def parameterAt (sig : Signature) (i : Nat) (a : Argument) : Check Ty := do
  let last := (sig.params.getLast?.map Param.type).getD .any
  if sig.isVariadic && sig.params.length ≤ i + 1 then
    if a.isSpread then return last
    match last with
    | .list t => return t
    | _ => return .any
  else if a.isSpread then
    misplaced Code.invalidSpread a.location "spread argument must fill a variadic parameter"
  else return (sig.params[i]?.map Param.type).getD .any

/-- An argument with the type it has and the type of its parameter. -/
structure Passed where
  argument : Argument
  type : Ty
  parameter : Ty

/-- Check arguments from a position on. A parameter type gives a hint once no type
parameter is left in it. -/
def passAll (sig : Signature) (s : Subst) : Nat → List Argument → Check (List Passed)
  | _, [] => return []
  | i, a :: as => do
    let parameter ← deref (← parameterAt sig i a)
    let expected := parameter.substitute s
    let t ← a.check (if expected.hasParam then none else some expected)
    if a.isSpread then record a.expr.id t
    return ⟨a, t, parameter⟩ :: (← passAll sig s (i + 1) as)

/-- The bindings of the signature's type parameters. -/
def bindings (place : Location) (sig : Signature) (explicit : Option Subst)
    (passed : List Passed) : Check Subst := do
  if sig.typeParams.isEmpty then return explicit.getD []
  let s := explicit.getD
    (TypeParam.inferArguments sig.typeParams (passed.map fun p => (p.parameter, p.type)))
  match Typing.constraints? sig.typeParams s with
  | none => return s
  | some d => fail (d.withPrimary (← file) (some place) "type arguments")

/-- Demand that arguments from a position on fit their parameters. -/
def fitAll (s : Subst) : Nat → List Passed → Check Unit
  | _, [] => return
  | i, p :: ps => do
    assignable p.argument.location p.type (p.parameter.substitute s)
      ("argument " ++ toString (i + 1))
    fitAll s (i + 1) ps

/-- The result of applying a signature, with the bindings of its type parameters. -/
def apply (place : Location) (sig : Signature) (explicit : List Ty) (args : List Argument) :
    Check (Ty × Subst) := do
  checkCount place sig args.length
  let explicit ← explicitBindings place sig explicit
  let passed ← passAll sig (explicit.getD []) 0 args
  let s ← bindings place sig explicit passed
  fitAll s 0 passed
  return (← deref (sig.result.substitute s), s)

/-- Check arguments of which nothing is expected. -/
def checkAll : List Argument → Check Unit
  | [] => return
  | a :: as => do
    let _ ← a.check none
    checkAll as

/-- The result of calling a value. -/
def value (place : Location) (callee : Ty) (explicit : List Ty) (args : List Argument) :
    Check Ty := do
  if callee.isAbsorbing then
    checkAll args
    return .any
  match callee with
  | .function sig => return (← apply place sig explicit args).1
  | _ => fail (.notCallable (← file) (some place) callee.text)

/-- The signature of a class without a constructor. -/
def defaultConstructor : Signature := ⟨[], .void, false, []⟩

def constructorOf (c : Class) : Check Signature := do
  return (← ofSearch ((← get).scopes.constructor c)).getD defaultConstructor

/-- Type arguments of a class that an annotation gives to its construction. -/
def expectedArguments (c : Class) (expected : Hint) : List Ty :=
  match expected.unwrap with
  | .generic base args =>
    if base.equals (.cls c) && args.length = c.typeParams.length then args else []
  | _ => []

/-- An instance made with `new`. -/
def construct (place : Location) (name : Ident) (typeArgs : List Annotation)
    (args : List Argument) (expected : Hint) : Check Ty := do
  if (← lookup? name.name).isNone then
    fail (.undefinedSymbol (← file) (some name.location) name.name)
  match ← classNamed? name.name with
  | none => fail (.notAClass (← file) (some name.location) name.name)
  | some c =>
    if c.isAbstract then
      invalidOperation place ("cannot instantiate abstract class " ++ c.name)
    let sig := { ← constructorOf c with typeParams := c.typeParams }
    let explicit ← meanings typeArgs
    let explicit := if explicit.isEmpty then expectedArguments c expected else explicit
    let (_, s) ← apply place sig explicit args
    if c.typeParams.isEmpty then return .cls c
    return .generic (.cls c) (c.typeParams.map fun p => (s.get? p.name).getD .unknown)

/-- The superclass of the class around the current point. -/
def superclass (place : Location) : Check Class := do
  let s ← get
  if s.className = "" then misplaced Code.invalidSuper place "super outside a class"
  if s.function.any FunctionContext.isStatic then
    misplaced Code.invalidSuper place "super inside a static member"
  match (s.scopes.classNamed? s.className).bind Class.parent with
  | none =>
    misplaced Code.invalidSuper place
      ("super in class " ++ s.className ++ " which has no superclass")
  | some p => return s.scopes.refresh p

/-- A call of the superclass constructor. -/
def superConstructor (place : Location) (callee : Mark) (args : List Argument) :
    Check Ty := do
  if !(← get).function.any fun f => f.name == constructorName then
    misplaced Code.invalidSuper place "super(...) outside a constructor"
  let c ← superclass callee.location
  record callee.id (.cls c)
  let _ ← apply place (← constructorOf c) [] args
  return .void

end Call

end TypedScript
