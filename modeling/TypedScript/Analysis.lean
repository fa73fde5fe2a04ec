import TypedScript.Checking.Walk
import TypedScript.Report.Rendering

/-!
# Analysing a program

Two passes over the top-level nodes of a program. The first registers declarations, so
that they may be used before they appear; the second checks every statement and body.
Faults are reported and the analysis goes on.
-/
namespace TypedScript

/-- A program: where it was read from and its top-level nodes. -/
structure Program where
  path : String
  nodes : List Node

namespace Options

/-- The options with the defaults for what is not set. -/
def normalized (o : Options) : Options :=
  { o with unionWidth := if o.unionWidth ≤ 0 then Ty.defaultUnionWidth else o.unionWidth }

end Options

namespace Session

def errorCount (s : Session) : Nat := Report.countOf .error s.reports.toList

def warningCount (s : Session) : Nat := Report.countOf .warning s.reports.toList

/-- The lines of the trace as one text. -/
def logText (painter : Painter) (color : Bool) (s : Session) : String :=
  String.join (s.log.toList.map fun (style, line) => style.paint painter color line ++ "\n")

end Session

namespace Analysis

open Check

/-- Complete a phase. -/
def advance (target : Phase) : Check Unit := do
  let s ← get
  match s.advance? (some target) with
  | some s =>
    set s
    trace .green (s.options.file ++ " -> " ++ target.name)
  | none =>
    trace .red (s.options.file ++ " cannot advance from " ++ s.phase.name ++ " to " ++
      target.name)

/-- Register the declarations of a program. -/
def collect (nodes : List Node) : Check Unit := do
  trace .blue ("collecting declarations of " ++ (← file))
  Declare.all nodes
  advance .collected

/-- Check the statements and bodies of a program. -/
def check (nodes : List Node) : Check Unit := do
  trace .blue ("checking " ++ (← file))
  Walk.nodes (Walk.demandFor nodes) nodes
  advance .typeChecked

/-- Both passes, and the number of errors as the last word. -/
def passes (nodes : List Node) : Check Unit := do
  collect nodes
  check nodes
  let s ← get
  trace .blue (s.options.file ++ ": " ++ toString s.errorCount ++ " error(s)")

/-- The options for a program: the file is its path unless another one is given. -/
def optionsFor (program : Option Program) (options : Options) : Options :=
  let options := options.normalized
  if options.file = "" then { options with file := (program.map Program.path).getD "" }
  else options

/-- Analyse a program. Without a program there is nothing to do but to go through the
phases. -/
def run (program : Option Program) (options : Options) : Except Misuse Session :=
  let nodes := (program.map Program.nodes).getD []
  match passes nodes { options := optionsFor program options } with
  | (.ok (), s) => .ok s
  | (.error (.misuse m), _) => .error m
  | (.error (.diagnostic d), s) => .ok (s.report d)
  | (.error (.symbol e), s) => .ok (s.report (.error e.message))

end Analysis

end TypedScript
