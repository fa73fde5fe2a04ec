import TypedScript.Flow.Build
import TypedScript.Report.Catalogue
import TypedScript.Type.Printer

/-!
# Missing returns

A function that declares a result must not come to its end without returning one. The
graph shows whether it can, and which branches lead there.
-/
namespace TypedScript

namespace FlowGraph

/-- Successors on paths that have not left the function. -/
def onward (g : FlowGraph) (b : BlockId) : List BlockId :=
  if (g.block b).returns then [] else g.successors b

/-- The end is reached on no path without a return. -/
def allPathsReturn (g : FlowGraph) : Bool := !(g.reach g.onward [entry]).contains exit

/-- The blocks from which control falls out of the function. -/
def fallingOff (g : FlowGraph) : List BlockId :=
  let found := g.reach (fun b => if b = exit then [] else g.successors b) [entry]
  g.ids.filter fun b =>
    b ≠ exit && found.contains b && !(g.block b).returns && (g.successors b).contains exit

/-- Predecessors up to the nearest branch. -/
def backward (g : FlowGraph) (b : BlockId) : List BlockId :=
  if (g.block b).branch.isSome then [] else g.predecessors b

/-- The nearest branches that lead to a block. -/
def branchesTo (g : FlowGraph) (b : BlockId) : List BlockId :=
  (g.reach g.backward [b]).filter fun b => (g.block b).branch.isSome

/-- The nearest branches that lead to some blocks, each once and in increasing order. -/
def branchesToAny (g : FlowGraph) (bs : List BlockId) : List BlockId :=
  ((bs.flatMap g.branchesTo).foldl (fun found b => found.insert b) []).mergeSort

/-- The branches that lead to the end without a return. -/
def missingReturns (g : FlowGraph) : List BlockId := g.branchesToAny g.fallingOff

/-- The label that points at a branch without a return. -/
def branchLabel? (b : FlowBlock) : Option (Location × String) :=
  match b.location, b.branch with
  | some l, some kind =>
    l.start.map fun p =>
      (l, "missing return in " ++ kind.name ++ " at line " ++ toString p.line)
  | _, _ => none

/-- The result that a body must return, if it must return one. -/
def neededResult? : Option Ty → Option Ty
  | none => none
  | some t =>
    let t := match t with
      | .future inner => inner
      | t => t
    if t.isVoid || t.isAbsorbing then none else some t

/-- The complaint about a function that may come to its end without a result. -/
def missingReturn? (g : FlowGraph) (file name : String) (place : Option Location)
    (declared : Option Ty) : Option Diagnostic :=
  match neededResult? declared with
  | none => none
  | some t =>
    if g.allPathsReturn then none
    else
      let d := (Diagnostic.error ("not all code paths in function " ++ name ++
        " return a value of type " ++ t.text))
        |>.withCode Code.missingReturn
        |>.withPrimary file place "missing return on some paths"
      let labels := g.missingReturns.filterMap fun b => branchLabel? (g.block b)
      let d := labels.foldl (fun d l => d.withContext file (some l.1) l.2) d
      some (d.withHelp
        "make sure every branch returns, or add a final return at the end of the function")

end FlowGraph

/-- The warning about statements that never run. -/
def Diagnostic.unreachableCode (file : String) (place : Location) : Diagnostic :=
  (Diagnostic.warning "unreachable code")
    |>.withCode Code.unreachableCode
    |>.withPrimary file (some place) "this code will never execute"
    |>.withHelp "remove this code or restructure control flow"

end TypedScript
