import TypedScript.Checking.Lineage
import TypedScript.Checking.Session
import TypedScript.Syntax.Naming
import TypedScript.Type.Hint
import TypedScript.Typing.Operations

/-!
# Checks

A check runs in a session and gives a result or a fault. The session keeps what was
done before the fault, and what a check enters it leaves again, fault or not.
-/
namespace TypedScript

/-- Why a check has no result. -/
inductive Fault where
  | diagnostic (d : Diagnostic)
  | symbol (e : SymbolError)
  | misuse (m : Misuse)

abbrev Check := ExceptT Fault (StateM Session)

/-- How to check an expression under the type expected of it. -/
abbrev Checker := Hint → Check Ty

namespace Check

variable {α β : Type}

def fail (d : Diagnostic) : Check α := throw (.diagnostic d)

def ofSymbols (r : Except SymbolError α) : Check α :=
  match r with
  | .ok a => pure a
  | .error e => throw (.symbol e)

/-- What was found, if anything was. -/
def ofSearch (r : Search α) : Check (Option α) :=
  match r with
  | .found a => pure (some a)
  | .absent => pure none
  | .endless => throw (.misuse .endless)

def report (d : Diagnostic) : Check Unit := modify fun s => s.report d

def trace (style : Style) (line : String) : Check Unit := modify fun s => s.trace style line

def record (id : NodeId) (t : Ty) : Check Unit := modify fun s => s.record id t

def file : Check String := return (← get).options.file

def unionWidth : Check Int := return (← get).options.unionWidth

def lookup? (name : String) : Check (Option Symbol) := return (← get).scopes.lookup? name

def classNamed? (name : String) : Check (Option Class) := return (← get).scopes.classNamed? name

def deref (t : Ty) : Check Ty := return (← get).deref t

/-- Run a check inside something that is entered before and left afterwards. -/
def during (enter : Session → Session × Undo) (body : Check α) : Check α := fun s =>
  let (s, undo) := enter s
  let (result, s) := body s
  match undo.run s with
  | .ok s => (result, s)
  | .error m => (.error (.misuse m), s)

/-- Run a check and then another one, also after a fault. -/
def andThen (body : Check α) (last : Session → Session) : Check α := fun s =>
  let (result, s) := body s
  (result, last s)

/-- Report the fault of a check, if it has one, and go on. -/
def reporting (body : Check Unit) : Check Unit := fun s =>
  match body s with
  | (.ok (), s) => (.ok (), s)
  | (.error (.diagnostic d), s) => (.ok (), s.report d)
  | (.error (.symbol e), s) => (.ok (), s.report (.error e.message))
  | (.error (.misuse m), s) => (.error (.misuse m), s)

/-- Give an operator's verdict, placing its refusal. -/
def settle (place : Location) (label : String) (verdict : Typing.Verdict) : Check Ty := do
  match verdict with
  | .ok t => return t
  | .error d => fail (d.withPrimary (← file) (some place) label)

/-- Refuse with a diagnostic at a place. -/
def refuse (code : String) (place : Location) (label message : String) (help : String := "") :
    Check α := do
  fail ((Diagnostic.error message).withCode code
    |>.withPrimary (← file) (some place) label
    |>.withHelp help)

def typeMismatch (place : Location) (message : String) : Check α :=
  refuse Code.typeMismatch place "type mismatch" message

def invalidOperation (place : Location) (message : String) : Check α :=
  refuse Code.invalidOperation place "invalid operation" message

/-- Refuse something that has no meaning where it stands. -/
def misplaced (code : String) (place : Location) (message : String) (help : String := "") :
    Check α :=
  refuse code place "not allowed here" message help

/-- Demand that a value fits a target. A value that is not known yet is not checked. -/
def assignable (place : Location) (value target : Ty) (label : String) : Check Unit := do
  if value.isUnknown then return
  match Typing.assign? (← deref value) (← deref target) with
  | none => return
  | some d => fail (d.withPrimary (← file) (some place) label)

/-- Resolve an annotation, replacing references to what is declared. -/
def meaning (a : Annotation) : Check Ty := do
  let s ← get
  match s.scopes.resolve s.options.file a with
  | .ok t => return s.deref t
  | .error e => refuse Code.invalidType a.location "invalid type annotation" e.message

def meanings : List Annotation → Check (List Ty)
  | [] => return []
  | a :: as => do
    let t ← meaning a
    return t :: (← meanings as)

/-- Declare a name in the innermost scope without a word about an earlier one. -/
def define (name : String) (kind : SymbolKind) (type : Ty) (isConst : Bool) (origin : Origin) :
    Check Symbol := do
  let s ← get
  let (symbol, scopes) ← ofSymbols (s.scopes.define name kind (some type) isConst origin)
  set { s with scopes }
  return symbol

/-- Declare a name in the innermost scope, pointing at an earlier declaration. -/
def declare (name : Ident) (kind : SymbolKind) (type : Ty) (isConst : Bool) (origin : Origin) :
    Check Symbol := do
  match (← get).scopes.current.named? name.name with
  | some earlier =>
    fail (.redeclared (← file) (some name.location) earlier.origin.location? name.name)
  | none => define name.name kind type isConst origin

/-- Change the type of a symbol, which must be what its name means here. -/
def retype (symbol : Symbol) (t : Ty) : Check Unit := do
  let s ← get
  let scopes ← ofSymbols (s.scopes.updateSymbol symbol.id symbol.name t)
  set { s with scopes }

/-- The type that a symbol has by now. -/
def currentType? (symbol : Symbol) : Check (Option Ty) := do
  return match (← get).scopes.symbol? symbol.id with
    | some x => x.type
    | none => symbol.type

end Check

end TypedScript
