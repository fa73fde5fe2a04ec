import TypedScript.Narrowing.Stack
import TypedScript.Report.Catalogue
import TypedScript.Report.Style
import TypedScript.Scope.Resolution
import TypedScript.Type.Join
import TypedScript.Typing.Access

/-!
# Sessions

Everything the analysis of one module knows while it runs: the scopes, the narrowings,
the function, class and loops around the current point, the types found so far, and
what there is to report.

Whatever is entered has an `Undo` that leaves it again.
-/
namespace TypedScript

/-- How far the analysis of a module has come. -/
inductive Phase where
  | notStarted | collected | typeChecked
  deriving DecidableEq

namespace Phase

def name : Phase → String
  | notStarted => "NotStarted"
  | collected => "Collected"
  | typeChecked => "TypeChecked"

/-- The name of a phase, with a word for numbers that name none. -/
def nameOf : Option Phase → String
  | some p => p.name
  | none => "Unknown"

def ofNumber? : Int → Option Phase
  | 0 => some notStarted
  | 1 => some collected
  | 2 => some typeChecked
  | _ => none

/-- The phase that comes right before. -/
def previous? : Phase → Option Phase
  | notStarted => none
  | collected => some notStarted
  | typeChecked => some collected

/-- A phase is entered from the one before it only. -/
def canAdvance (current target : Option Phase) : Bool :=
  match target.bind previous? with
  | some p => current = some p
  | none => false

end Phase

/-- The function whose body is being checked. -/
structure FunctionContext where
  name : String
  /-- The annotated result; none when the result is inferred. -/
  declared : Option Ty := none
  /-- The types returned so far, in order. -/
  returns : List Ty := []
  isAsync : Bool := false
  isStatic : Bool := false

/-- The constructs that break and continue bind to. -/
inductive Breakable where
  | loop | switch
  deriving DecidableEq

/-- The sizes that rows of loops and switches come in. -/
def Breakable.rowSizes : List Nat :=
  [1, 2, 4, 8, 16, 32, 64, 128, 256, 512, 848, 1280, 1792, 2560, 3408, 5120]

structure Options where
  /-- The file that diagnostics are stamped with. -/
  file : String := ""
  /-- The widest union that a common type may be. -/
  unionWidth : Int := Ty.defaultUnionWidth
  builtins : Builtins := .standard

/-- The type that was found for an expression. What the names in a type mean depends on
the scopes that it was found in. -/
structure Finding where
  id : NodeId
  type : Ty
  scopes : Scopes

structure Session where
  options : Options := {}
  phase : Phase := .notStarted
  scopes : Scopes := {}
  narrowing : NarrowingStack := {}
  /-- Narrowings follow what names mean; otherwise a name is one binding everywhere. -/
  followsScopes : Bool := true
  function : Option FunctionContext := none
  /-- The name of the class around the current point, empty outside any class. -/
  className : String := ""
  /-- The loops and switches around the current point. -/
  breakables : SharedStack Breakable := .empty
  /-- The types of expressions, newest first. -/
  types : List Finding := []
  /-- Declarations whose result is being inferred. -/
  inferring : List NodeId := []
  /-- Declarations whose body has been checked. -/
  checked : List NodeId := []
  /-- Diagnostics in the order they were reported. -/
  reports : Array Diagnostic := #[]
  /-- Lines of the trace in order. -/
  log : Array (Style × String) := #[]

/-- How to leave what was entered. -/
inductive Undo where
  | scope
  | frame (depth : Nat)
  | frames (saved : StackMark)
  | function (saved : Option FunctionContext) (breakables : StackMark)
  | className (saved : String)
  | breakable
  | detached (locals : List ScopeId) (depth : Nat) (frames : StackMark)
      (function : Option FunctionContext) (className : String) (breakables : StackMark)

namespace Session

def ofFile (file : String) : Session := { options := { file } }

def binder (s : Session) : Binder := fun name =>
  if s.followsScopes then (s.scopes.lookup? name).map Symbol.id else none

/-- The refined type of a name. -/
def narrowed? (s : Session) (name : String) : Option Ty := s.narrowing.lookup? s.binder name

/-- The type of a variable, refined where it is. -/
def typeOf? (s : Session) (name : String) : Option Ty :=
  (s.narrowed? name).or
    (match s.scopes.lookup? name with
     | some x => if x.kind.isType then none else x.type
     | none => none)

def surroundings (s : Session) : Surroundings where
  typeOf? := s.typeOf?
  classNamed? := s.scopes.classNamed?

def deref (s : Session) (t : Ty) : Ty := s.scopes.deref t

/-- Await is allowed in asynchronous functions and outside all functions. -/
def inAsync (s : Session) : Bool :=
  match s.function with
  | none => true
  | some f => f.isAsync

def innermostBreakable? (s : Session) : Option Breakable := s.breakables.toList.head?

/-- Go on to a phase, if it is the next one. -/
def advance? (s : Session) (target : Option Phase) : Option Session :=
  if Phase.canAdvance (some s.phase) target then target.map fun p => { s with phase := p }
  else none

def enterScope (s : Session) : Session × Undo :=
  ({ s with scopes := s.scopes.enter }, .scope)

def pushNarrowings (s : Session) (n : Narrowings) : Session × Undo :=
  let stack := s.narrowing.push s.binder n
  ({ s with narrowing := stack }, .frame stack.depth)

/-- Set all narrowings aside. -/
def detachNarrowings (s : Session) : Session × Undo :=
  ({ s with narrowing := s.narrowing.detach }, .frames s.narrowing.stack.top)

/-- Start a function; loops around it do not count inside. -/
def enterFunction (s : Session) (f : FunctionContext) : Session × Undo :=
  ({ s with function := some f, breakables := s.breakables.fresh },
    .function s.function s.breakables.top)

def enterClass (s : Session) (name : String) : Session × Undo :=
  ({ s with className := name }, .className s.className)

def enterBreakable (s : Session) (b : Breakable) : Session × Undo :=
  ({ s with breakables := s.breakables.push Breakable.rowSizes b }, .breakable)

/-- Go to module level: the global scope, and no function, class, loop or narrowing. -/
def detach (s : Session) : Session × Undo :=
  ({ s with
      scopes := s.scopes.detach
      narrowing := s.narrowing.detach
      function := none
      className := ""
      breakables := s.breakables.fresh },
    .detached s.scopes.locals s.scopes.depth s.narrowing.stack.top s.function s.className
      s.breakables.top)

def exitScope (s : Session) : Except Misuse Session :=
  s.scopes.exit.map fun scopes => { s with scopes }

def popFrame (s : Session) : Except Misuse Session :=
  s.narrowing.pop.map fun narrowing => { s with narrowing }

def leaveBreakable (s : Session) : Except Misuse Session :=
  match s.breakables.pop? with
  | none => .error .noBreakable
  | some breakables => .ok { s with breakables }

/-- An assigned variable has its declared type again. -/
def forget (s : Session) (name : String) (declared : Ty) : Session :=
  { s with narrowing := s.narrowing.forget s.binder name declared }

def isInferring (s : Session) (id : NodeId) : Bool := s.inferring.contains id

/-- Note that a declaration's result is being inferred. -/
def beginInference (s : Session) (id : NodeId) : Session :=
  { s with inferring := id :: s.inferring }

def endInference (s : Session) (id : NodeId) : Session :=
  { s with inferring := s.inferring.filter fun i => i != id }

def isChecked (s : Session) (id : NodeId) : Bool := s.checked.contains id

def markChecked (s : Session) (id : NodeId) : Session := { s with checked := id :: s.checked }

/-- Note the type of an expression. -/
def record (s : Session) (id : NodeId) (t : Ty) : Session :=
  { s with types := ⟨id, t, s.scopes⟩ :: s.types }

def recorded? (s : Session) (id : NodeId) : Option Ty :=
  (s.types.find? fun f => f.id == id).map Finding.type

def report (s : Session) (d : Diagnostic) : Session :=
  { s with reports := s.reports.push (d.inFile s.options.file) }

def trace (s : Session) (style : Style) (line : String) : Session :=
  { s with log := s.log.push (style, line) }

end Session

namespace Undo

def run (u : Undo) (s : Session) : Except Misuse Session :=
  match u with
  | .scope => s.exitScope
  | .frame depth => (s.narrowing.popAt depth).map fun narrowing => { s with narrowing }
  | .frames saved => .ok { s with narrowing := s.narrowing.reattach saved }
  | .function saved breakables =>
    .ok { s with function := saved, breakables := s.breakables.backTo breakables }
  | .className saved => .ok { s with className := saved }
  | .breakable => s.leaveBreakable
  | .detached locals depth mark f name breakables =>
    .ok { s with
      scopes := s.scopes.reattach locals depth
      narrowing := s.narrowing.reattach mark
      function := f
      className := name
      breakables := s.breakables.backTo breakables }

/-! Leaving right after entering puts back what was there. -/

@[simp] theorem run_enterScope (s : Session) :
    s.enterScope.2.run s.enterScope.1 =
      .ok { s with scopes := { s.scopes with entered := s.scopes.entered.push [] } } := rfl

@[simp] theorem run_detachNarrowings (s : Session) :
    s.detachNarrowings.2.run s.detachNarrowings.1 = .ok s := by
  simp [Session.detachNarrowings, run]

@[simp] theorem run_enterFunction (s : Session) (f : FunctionContext) :
    (s.enterFunction f).2.run (s.enterFunction f).1 = .ok s := by
  simp [Session.enterFunction, run]

@[simp] theorem run_enterClass (s : Session) (name : String) :
    (s.enterClass name).2.run (s.enterClass name).1 = .ok s := rfl

@[simp] theorem run_detach (s : Session) : s.detach.2.run s.detach.1 = .ok s := by
  simp [Session.detach, run]

end Undo

end TypedScript
