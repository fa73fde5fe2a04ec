import TypedScript.Source.Location

/-!
# Diagnostics and misuse

What the analysis has to say about a program: a severity, a message with an optional
code, labelled places, notes and a hint at a remedy. The primary label, if any, is the
place the diagnostic is about.

A misuse is no fault of the program: a call that breaks the rules of an operation. An
operation that is misused does nothing.
-/
namespace TypedScript

inductive Misuse where
  /-- A composite kind was used where a primitive one is needed. -/
  | notPrimitive (kind : String)
  /-- A narrowing frame was popped while there was none. -/
  | popOnEmpty
  /-- The innermost narrowing frame is not the one that was pushed. -/
  | unbalancedPop
  /-- A loop or switch was left while there was none. -/
  | noBreakable
  /-- The global scope was left. -/
  | exitGlobal
  /-- A secondary label was added before the primary one. -/
  | secondaryFirst
  /-- A search went round in a circle. -/
  | endless
  /-- The place of a statement that is absent was asked for. -/
  | absentNode
  deriving DecidableEq

namespace Misuse

def message : Misuse → String
  | notPrimitive kind => "types: " ++ kind ++ " is not a primitive kind"
  | popOnEmpty => "narrowing: pop on empty stack"
  | unbalancedPop => "narrowing: unbalanced push/pop"
  | noBreakable => "no loop or switch to leave"
  | exitGlobal => "table: ExitScope called on the global scope"
  | secondaryFirst => "diagnostics: secondary label added before the primary label"
  | endless => "endless search"
  | absentNode => "no statement to place"

end Misuse

inductive Severity where
  | error | warning | info | hint | other
  deriving DecidableEq

namespace Severity

def name : Severity → String
  | error => "error"
  | warning => "warning"
  | info => "info"
  | hint => "hint"
  | other => "unknown"

end Severity

structure Label where
  isPrimary : Bool
  location : Option Location
  message : String
  deriving DecidableEq

/-- The code, the file and the help are empty where there is none. -/
structure Diagnostic where
  severity : Severity
  message : String
  code : String := ""
  file : String := ""
  labels : List Label := []
  notes : List String := []
  help : String := ""
  deriving DecidableEq

namespace Diagnostic

def error (message : String) : Diagnostic := { severity := .error, message }
def warning (message : String) : Diagnostic := { severity := .warning, message }
def info (message : String) : Diagnostic := { severity := .info, message }

def withCode (d : Diagnostic) (code : String) : Diagnostic := { d with code }
def withHelp (d : Diagnostic) (help : String) : Diagnostic := { d with help }
def withNote (d : Diagnostic) (note : String) : Diagnostic := { d with notes := d.notes ++ [note] }

/-- Name the file, unless one is named already. -/
def inFile (d : Diagnostic) (file : String) : Diagnostic :=
  if d.file = "" then { d with file } else d

/-- Add a label after the others. -/
def withLabel (d : Diagnostic) (isPrimary : Bool) (file : String) (location : Option Location)
    (message : String) : Diagnostic :=
  let d := d.inFile file
  { d with labels := d.labels ++ [⟨isPrimary, location, message⟩] }

def primary? (d : Diagnostic) : Option Label := d.labels.find? Label.isPrimary

def isLocated (d : Diagnostic) : Bool := d.primary?.isSome

/-- The place the diagnostic is about. -/
def location? (d : Diagnostic) : Option Location := d.primary?.bind Label.location

/-- Put the primary label first. A diagnostic that has one keeps it. -/
def withPrimary (d : Diagnostic) (file : String) (location : Option Location)
    (message : String) : Diagnostic :=
  if d.isLocated then d
  else
    let d := d.inFile file
    { d with labels := ⟨true, location, message⟩ :: d.labels }

/-- Add a secondary label. -/
def withContext (d : Diagnostic) (file : String) (location : Option Location)
    (message : String) : Diagnostic :=
  d.withLabel false file location message

/-- Add a secondary label to a diagnostic that has a primary one. -/
def withSecondary (d : Diagnostic) (file : String) (location : Option Location)
    (message : String) : Except Misuse Diagnostic :=
  if d.isLocated then .ok (d.withContext file location message) else .error .secondaryFirst

/-- The file that a place is in: the one the diagnostic names, or else the place. -/
def fileAt (d : Diagnostic) (l : Location) : String := if d.file = "" then l.fileName else d.file

/-- The diagnostic on one line, after the place it is about. -/
def line (d : Diagnostic) : String :=
  let place :=
    match d.location?.bind fun l => l.ends?.map fun e => (l, e.1) with
    | some (l, start) => d.fileAt l ++ ":" ++ start.text ++ ": "
    | none => if d.file = "" then "" else d.file ++ ": "
  let code := if d.code = "" then "" else "[" ++ d.code ++ "]"
  place ++ d.severity.name ++ code ++ ": " ++ d.message

end Diagnostic

end TypedScript
