import TypedScript.Checking.Expressions
import TypedScript.Flow.Returns

/-!
# Functions

Checking the body of a function, method, constructor or arrow. A body is checked in a
scope of its own, against the declared result or to find the result.

The result of a declared function becomes part of its symbol's type. A function that is
used before its turn is checked on demand, a module-level one as at module level. Each
declaration is checked once, and never again from inside itself.
-/
namespace TypedScript

/-- How to check the body of a function. -/
inductive BodyCheck where
  | missing
  | block (b : Block) (check : Check Unit)
  | expr (x : Part)

/-- A function whose body is to be checked. -/
structure FunctionSpec where
  name : String
  place : Location
  signature : Signature
  params : List ParamDecl
  isAsync : Bool
  isStatic : Bool
  /-- The result comes from the body. -/
  isInferred : Bool

namespace FunctionContext

/-- What a return statement must give: an asynchronous function returns the bare value of
its future. -/
def target (f : FunctionContext) : Hint :=
  match f.declared with
  | some (.future t) => if f.isAsync then some t else some (.future t)
  | t => t

/-- The common type of what was returned. Returns without a value count only when nothing
else is returned. -/
def inferredResult (f : FunctionContext) (width : Int) : Ty :=
  match f.returns.filter fun t => !t.isVoid with
  | [] => .void
  | ts => Ty.common ts width

end FunctionContext

namespace Rule

open Check

def defineTypeParams : List TypeParam → Check Unit
  | [] => return
  | p :: ps => do
    let _ ← define p.name .typeParam (.param p.name) false .unknown
    defineTypeParams ps

def defineParams : List ParamDecl → List Param → Check Unit
  | p :: ps, q :: qs => do
    let t ← deref q.type
    let _ ← declare p.name .parameter t false (.place p.name.location)
    defineParams ps qs
  | _, _ => return

/-- Note what a return statement gives. -/
def addReturn (t : Ty) : Check Unit :=
  modify fun s => { s with function := s.function.map fun f =>
    { f with returns := f.returns ++ [t] } }

/-- The body of an arrow that is an expression returns it. -/
def exprBody (x : Part) : Check Unit := do
  let target := (← get).function.bind FunctionContext.target
  let t ← x.check target
  if let some want := target then
    if !want.isVoid then assignable x.location t want ("expected " ++ want.text)
  addReturn t

/-- Report what is dead. The last statement must not be absent, for it tells where the dead code
ends. -/
def reportUnreachable : List DeadCode → Check Unit
  | [] => return
  | code :: rest => do
    if code.last.isEmpty then throw (.misuse .absentNode)
    trace .orange ("    unreachable code in " ++ (← file))
    report (.unreachableCode (← file) code.place)
    reportUnreachable rest

/-- Report what never runs, and whether a declared result may be missing. -/
def checkFlow (f : FunctionSpec) (declared : Hint) (b : Block) : Check Unit := do
  let (graph, unreachable) := FlowGraph.build (some b) (some f.place)
  reportUnreachable unreachable
  if let some d := graph.missingReturn? (← file) f.name (some f.place) declared then report d

def checkBody (f : FunctionSpec) (declared : Hint) : BodyCheck → Check Unit
  | .missing => return
  | .expr x => exprBody x
  | .block b check => do
    check
    checkFlow f declared b

/-- The result of the function around the current point, declared or inferred. -/
def result (f : FunctionSpec) (declared : Hint) : Check Ty := do
  match declared with
  | some t => return t
  | none =>
    let width ← unionWidth
    let t := ((← get).function.map fun c => c.inferredResult width).getD .void
    let t := if f.isAsync then t.asFuture else t
    trace .green ("    inferred " ++ f.name ++ ": " ++ t.text)
    return t

/-- Check a body and give the result of the function. -/
def functionBody (f : FunctionSpec) (body : BodyCheck) : Check Ty :=
  during Session.enterScope do
    defineTypeParams f.signature.typeParams
    defineParams f.params f.signature.params
    let declared ← if f.isInferred then pure none else some <$> deref f.signature.result
    during (fun s => s.enterFunction
        { name := f.name, declared, isAsync := f.isAsync, isStatic := f.isStatic }) do
      checkBody f declared body
      result f declared

/-- Run a check of a declaration, unless it was checked or is being checked. -/
def once (id : NodeId) (body : Check Unit) : Check Unit := do
  let s ← get
  if s.isChecked id || s.isInferring id then return
  set (s.beginInference id)
  andThen body fun s => s.endInference id

/-- Check a declared function. One whose declaration failed is left alone. -/
def function (f : Callable) (body : BodyCheck) : Check Unit := do
  match ← lookup? f.name.name with
  | none => return
  | some symbol =>
    match symbol.type with
    | some (.function sig) =>
      if symbol.origin.function?.any fun g => g.id == f.id then
        once f.id do
          trace .cyan ("  checking fn " ++ f.name.name)
          let isInferred := f.result.isOmitted
          let t ← andThen (functionBody
            ⟨f.name.name, f.name.location, sig, f.params, f.isAsync, false, isInferred⟩ body)
            fun s => s.markChecked f.id
          if isInferred then retype symbol (.function (sig.withResult t))
    | _ => return

/-- Run a check at module level if the symbol belongs there. -/
def atHome (symbol : Symbol) (body : Check Unit) : Check Unit := do
  match (← get).scopes.global.named? symbol.name with
  | some x => if x.id = symbol.id then during Session.detach body else body
  | none => body

/-- Check a function whose result is needed before its turn. -/
def functionOnDemand (bodyOf : Callable → BodyCheck) (symbol : Symbol) : Check Unit := do
  match symbol.origin.function? with
  | none => return
  | some f =>
    if (← get).isChecked f.id then return
    atHome symbol do
      trace .yellow ("    inferring " ++ symbol.name ++ " on demand")
      reporting (function f (bodyOf f))

/-- The type of an arrow's parameter: annotated, or taken from the hint, or any. -/
def arrowParam (hint : Option Param) (p : ParamDecl) : Check Ty := do
  if p.type.isOmitted then
    match hint with
    | some q => return q.type
    | none => return if p.isVariadic then .list .any else .any
  else
    let s ← get
    match s.scopes.resolveParam s.options.file p with
    | .ok t => return t
    | .error e => refuse Code.invalidType p.location "invalid parameter type" e.message

/-- The parameters of an arrow, and whether the last one is variadic. -/
def arrowParams (place : Location) :
    List Param → List ParamDecl → Check (List Param × Bool)
  | _, [] => return ([], false)
  | hints, p :: ps => do
    let t ← arrowParam hints.head? p
    if p.isVariadic && !ps.isEmpty then
      invalidOperation place ("variadic parameter " ++ p.name.name ++ " must be last")
    let (rest, isVariadic) ← arrowParams place hints.tail ps
    return (⟨p.name.name, t⟩ :: rest, p.isVariadic || isVariadic)

/-- An arrow function. It keeps the `this` of its surroundings. -/
def arrow (place : Location) (params : List ParamDecl) (result : Annotation)
    (body : BodyCheck) (isAsync : Bool) (expected : Hint) : Check Ty := do
  let hints := (expected.function?.map Signature.params).getD []
  let (ps, isVariadic) ← arrowParams place hints params
  let declared ← if result.isOmitted then pure Ty.unknown else do
    let t ← meaning result
    pure (if isAsync then t.asFuture else t)
  let sig : Signature := ⟨ps, declared, isVariadic, []⟩
  let isStatic := (← get).function.any FunctionContext.isStatic
  let t ← functionBody ⟨"<arrow>", place, sig, params, isAsync, isStatic, result.isOmitted⟩ body
  return .function (sig.withResult t)

end Rule

end TypedScript
