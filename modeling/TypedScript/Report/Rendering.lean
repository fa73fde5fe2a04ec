import TypedScript.Report.Diagnostic
import TypedScript.Report.Style
import TypedScript.Source.Lines
import TypedScript.Text.Integer

/-!
# Rendering diagnostics

How diagnostics are shown: a headline, each label under the source line it points at,
notes and help in a gutter as wide as the largest line number, and a summary at the
end. Where no source line is at hand the label stands alone.
-/
namespace TypedScript

/-- The texts that can be quoted: those registered by path, and files on disk. -/
structure Sources where
  registered : List (String × String) := []
  disk : List (String × String) := []

namespace Sources

/-- The lines of a source; a registered text comes before a file. -/
def lines? (s : Sources) (path : String) : Option (List String) :=
  match s.registered.lookup path with
  | some text => some (Source.lines text)
  | none => (s.disk.lookup path).bind Source.fileLines?

/-- The lines of a file that is read as one text. -/
def wholeFile? (s : Sources) (path : String) : Option (List String) :=
  (s.disk.lookup path).map Source.lines

/-- A line of a source, counted from one. -/
def line? (s : Sources) (path : String) (n : Int) : Option String :=
  (s.lines? path).bind fun ls => if 0 < n then ls[(n - 1).toNat]? else none

end Sources

namespace Report

def blanks (n : Nat) : String := String.ofList (List.replicate n ' ')

/-- The digits of a number, filled up with blanks on the left. -/
def padded (width : Nat) (n : Int) : String :=
  let digits := toString n
  blanks (width - digits.length) ++ digits

/-- The style of a severity. -/
def severityStyle : Severity → Style
  | .warning => .yellow
  | .info => .cyan
  | .hint => .purple
  | .error => .boldRed
  | .other => .boldRed

/-- The width of the largest line number that a diagnostic quotes. -/
def gutterWidth (d : Diagnostic) : Nat :=
  let last := d.labels.foldl
    (fun n l => match l.location.bind Location.start with
      | some p => if n < p.line then p.line else n
      | none => n) (0 : Int)
  if last = 0 then 1 else (toString last).length

variable (painter : Painter) (color : Bool)

def headline (d : Diagnostic) : String :=
  let style := severityStyle d.severity
  style.paint painter color d.severity.name ++
    (if d.code = "" then "" else "[" ++ d.code ++ "]") ++ ": " ++
    style.paintLine painter color d.message

/-- The mark under the labelled columns of one line. A span over several lines is
marked at its start. -/
def underline (severity : Severity) (label : Label) (start : Position) (stop : Option Position) :
    String :=
  let stop :=
    match stop with
    | some q => if q.line = start.line then q else start
    | none => start
  let width := max 1 (wrap64 (stop.column - start.column)).toNat
  let style := if label.isPrimary then severityStyle severity else .blue
  let mark := if label.isPrimary then (if 1 < width then '~' else '^') else '-'
  blanks (start.column - 1).toNat ++
    style.paint painter color (String.ofList (List.replicate width mark)) ++
    (if label.message = "" then "" else style.paint painter color (" " ++ label.message))

/-- What stands under the place of a label: the line it points at with the mark, or else the
label alone. -/
def quotation (severity : Severity) (width : Nat) (label : Label) (start : Position)
    (stop : Option Position) : Option String → String
  | none =>
    if label.message = "" then ""
    else blanks width ++ Style.grey.paint painter color " | " ++ label.message ++ "\n"
  | some line =>
    blanks width ++ Style.grey.paintLine painter color " |" ++
      Style.grey.paint painter color (padded width start.line ++ " | ") ++ line ++ "\n" ++
      blanks width ++ Style.grey.paint painter color " | " ++
      underline painter color severity label start stop ++ "\n"

def labelText (sources : Sources) (d : Diagnostic) (width : Nat) (label : Label) : String :=
  match label.location.bind fun l => l.start.map fun start => (l, start) with
  | none => ""
  | some (l, start) =>
    let path := d.fileAt l
    Style.blue.paint painter color (blanks width ++ "--> " ++ path ++ ":" ++ start.text ++ "\n") ++
      quotation painter color d.severity width label start l.stop (sources.line? path start.line)

/-- A diagnostic with a blank line after it. -/
def render (sources : Sources) (d : Diagnostic) : String :=
  let width := gutterWidth d
  headline painter color d ++
    String.join (d.labels.map (labelText painter color sources d width)) ++
    String.join (d.notes.map fun note =>
      blanks width ++ Style.cyan.paint painter color " = note: " ++ note ++ "\n") ++
    (if d.help = "" then ""
     else blanks width ++ Style.green.paint painter color " = help: " ++ d.help ++ "\n") ++ "\n"

def countOf (severity : Severity) (ds : List Diagnostic) : Nat :=
  ds.countP fun d => d.severity = severity

/-- The number of errors and warnings, where there are any. -/
def summary (ds : List Diagnostic) : String :=
  let errors := countOf .error ds
  let warnings := countOf .warning ds
  if 0 < errors then
    Style.red.paint painter color ("\nAnalysis failed with " ++ toString errors ++ " error(s)") ++
      (if 0 < warnings then
        Style.red.paint painter color (" and " ++ toString warnings ++ " warning(s)")
       else "") ++ "\n"
  else if 0 < warnings then
    Style.orange.paint painter color
      ("\nAnalysis succeeded with " ++ toString warnings ++ " warning(s)\n")
  else ""

/-- All diagnostics in order, and the summary. -/
def renderAll (sources : Sources) (ds : List Diagnostic) : String :=
  String.join (ds.map (render painter color sources)) ++ summary painter color ds

end Report

end TypedScript
