import TypedScript.Checking.Functions

/-!
# Statements

The rule of each form of statement, over checks of its parts. A fault in a statement of
a block is reported and the next statement is checked; a fault in a part of a statement
ends that statement.
-/
namespace TypedScript

/-- A clause of a switch with checks of its parts. -/
structure ClauseCheck where
  values : List Part
  body : Check Unit

namespace Rule

open Check

/-- Run a check in a scope of its own where narrowings hold. -/
def inScope (n : Narrowings) (body : Check Unit) : Check Unit :=
  narrowed n (during Session.enterScope body)

/-- The type of a variable, from its annotation and its initial value. -/
def varType (place : Location) (name : Ident) (type : Annotation) (value : Option Part) :
    Check Ty := do
  let declared ← if type.isOmitted then pure none else some <$> meaning type
  match value with
  | some x =>
    let t ← x.check declared
    if t.isVoid then
      typeMismatch x.location ("cannot initialize " ++ name.name ++ " with a Void value")
    match declared with
    | some want =>
      assignable place t want ("expected " ++ want.text)
      return want
    | none => return t
  | none =>
    match declared with
    | none => return .any
    | some t =>
      match t.findRef with
      | some (ref, _) => fail (.unresolvedReference (← file) (some type.location) ref)
      | none => return t

def varDecl (place : Location) (name : Ident) (type : Annotation) (value : Option Part)
    (isConst : Bool) : Check Unit := do
  let t ← varType place name type value
  let _ ← declare name (if isConst then .constant else .var) t isConst (.place place)
  trace .grey ("    " ++ name.name ++ ": " ++ t.text)

/-- Refuse a returned value that is not the one declared. -/
def fitReturn (f : FunctionContext) (place : Location) (value target : Ty) : Check Unit := do
  if target.isVoid && !value.isVoid then
    refuse Code.invalidReturn place ("unexpected " ++ value.text)
      ("function " ++ f.name ++ " returns no value")
  else
    match Typing.assign? value target with
    | none => return
    | some d =>
      if !value.isUnknown then
        fail ((d.withCode Code.invalidReturn).withPrimary (← file) (some place)
          ("expected " ++ target.text))

def ret (place : Location) (value : Option Part) : Check Unit := do
  match (← get).function with
  | none => misplaced Code.invalidReturn place "return outside a function"
  | some f =>
    match value with
    | none =>
      if let some t := f.target then
        if !t.isVoid && !t.isAbsorbing then
          typeMismatch place ("missing return value, expected " ++ t.text)
      addReturn .void
    | some x =>
      let t ← x.check f.target
      if let some want := f.target then fitReturn f x.location t want
      addReturn t

/-- What follows `else`. -/
inductive ElseCheck where
  | none
  | block (check : Check Unit)
  | node (check : Check Unit)

def ifStmt (cond : Part) (body : Check Unit) (otherwise : ElseCheck) : Check Unit := do
  let o ← condition cond
  inScope o.holds body
  match otherwise with
  | .none => return
  | .block check => inScope o.fails check
  | .node check => narrowed o.fails check

/-- The body of a loop. -/
def loopBody (n : Narrowings) (body : Check Unit) : Check Unit :=
  during (fun s => s.enterBreakable .loop) (inScope n body)

def whileLoop (cond : Part) (body : Check Unit) : Check Unit := do
  let o ← condition cond
  loopBody o.holds body

def forLoop (init : Check Unit) (cond post : Option Part) (body : Check Unit) : Check Unit :=
  during Session.enterScope do
    init
    let n ← match cond with
      | some c => Outcomes.holds <$> condition c
      | none => pure []
    during (fun s => s.enterBreakable .loop) do
      inScope n body
      if let some x := post then
        let _ ← x.check none

def forOf (var : Ident) (iterable : Part) (body : Check Unit) : Check Unit := do
  let t ← iterable.check none
  match Typing.iteration? t with
  | none => invalidOperation iterable.location ("cannot iterate over " ++ t.text)
  | some element =>
    during Session.enterScope do
      let _ ← declare var .var element false (.place var.location)
      loopBody [] body

/-- Check the values of a clause; each is compared with the subject. -/
def caseValues (subject : Ty) : List Part → Check Unit
  | [] => return
  | x :: xs => do
    let t ← x.check (some subject)
    let _ ← settle x.location "case value" (Typing.binary .eq subject t)
    caseValues subject xs

def clauses (subject : Ty) : List ClauseCheck → Check Unit
  | [] => return
  | c :: cs => do
    caseValues subject c.values
    inScope [] c.body
    clauses subject cs

def switch (subject : Part) (cs : List ClauseCheck) : Check Unit := do
  let t ← subject.check none
  during (fun s => s.enterBreakable .switch) (clauses t cs)

def breakStmt (place : Location) : Check Unit := do
  if (← get).innermostBreakable?.isNone then
    misplaced Code.invalidBreak place "break outside a loop or switch"

def continueStmt (place : Location) : Check Unit := do
  match (← get).innermostBreakable? with
  | none => misplaced Code.invalidContinue place "continue outside a loop"
  | some .switch =>
    misplaced Code.invalidContinue place "continue inside switch" "use break to leave a switch"
  | some .loop => return

/-- The handler of a try; what is caught is an error. -/
def handler (param : Option Ident) (body : Check Unit) : Check Unit :=
  during Session.enterScope do
    if let some p := param then
      let _ ← declare p .var (.prim .error) false (.place p.location)
    inScope [] body

def tryStmt (body : Check Unit) (param : Option Ident) (caught final : Option (Check Unit)) :
    Check Unit := do
  inScope [] body
  if let some c := caught then handler param c
  if let some c := final then inScope [] c

/-- A node that is no statement. -/
def unsupported (n : Node) : Check Unit :=
  invalidOperation n.location ("unsupported statement " ++ n.form)

end Rule

end TypedScript
