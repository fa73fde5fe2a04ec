import TypedScript.Checking.Declare
import TypedScript.Checking.Functions

/-!
# Class bodies

Checking the initial values, the constructor and the methods of a class. What is found
out about a member is written back to the class, which is read anew for every member.
-/
namespace TypedScript

/-- A class declaration with checks of its parts. -/
structure ClassCheck where
  decl : ClassDecl
  fields : List (FieldDecl × Option Part)
  ctor : Option (Callable × BodyCheck)
  methods : List (Callable × BodyCheck)

namespace Rule

open Check

/-- Run a check inside a class, where its type parameters are known. -/
def inClass (c : Class) (body : Check Unit) : Check Unit :=
  during (fun s => s.enterClass c.name) <| during Session.enterScope do
    defineTypeParams c.typeParams
    body

/-- Check the initial value of a field. A field without annotation takes its type. -/
def fieldValue (symbol : Symbol) (c : Class) (m : Member) (f : FieldDecl) (value : Part) :
    Check Unit := do
  let expected ← if m.type.isUnknown then pure none else some <$> deref m.type
  during (fun s => s.enterFunction
      { name := f.name.name, declared := some .void, isStatic := f.isStatic }) do
    let t ← value.check expected
    match expected with
    | some want => assignable value.location t want ("initializer of " ++ f.name.name)
    | none =>
      retype symbol (.cls (c.withProperty { m with type := t }))
      trace .grey ("    field " ++ c.name ++ "." ++ f.name.name ++ ": " ++ t.text)

def field (symbol : Symbol) (f : FieldDecl) (value : Option Part) : Check Unit := do
  match value, (← currentType? symbol).bind Ty.class? with
  | some value, some c =>
    match c.property? f.name.name with
    | some m => fieldValue symbol c m f value
    | none => return
  | _, _ => return

/-- Write the result of a method back to its class. -/
def patchMethod (className : String) (m : Member) (sig : Signature) (result : Ty) :
    Check Unit := do
  match ← lookup? className with
  | none => return
  | some symbol =>
    match symbol.type with
    | some (.cls c) =>
      retype symbol (.cls (c.withMethod { m with type := .function (sig.withResult result) }))
    | _ => return

def constructor (className : String) (m : Callable) (body : BodyCheck) : Check Unit := do
  match (← classNamed? className).bind Class.ctor with
  | none => return
  | some sig =>
    once m.id do
      let _ ← andThen (functionBody
        ⟨constructorName, m.location, sig, m.params, m.isAsync, m.isStatic, false⟩ body)
        fun s => s.markChecked m.id

def method (className : String) (m : Callable) (body : BodyCheck) : Check Unit := do
  match (← classNamed? className).bind fun c => c.method? m.name.name with
  | none => return
  | some member =>
    match member.type with
    | .function sig =>
      once m.id do
        let isInferred := m.result.isOmitted
        let t ← andThen (functionBody
          ⟨m.name.name, m.location, sig, m.params, m.isAsync, m.isStatic, isInferred⟩ body)
          fun s => s.markChecked m.id
        if isInferred then patchMethod className member sig t
    | _ => return

def fields (symbol : Symbol) : List (FieldDecl × Option Part) → Check Unit
  | [] => return
  | (f, value) :: rest => do
    reporting (field symbol f value)
    fields symbol rest

def methods (className : String) : List (Callable × BodyCheck) → Check Unit
  | [] => return
  | (m, body) :: rest => do
    reporting (method className m body)
    methods className rest

/-- Check a declared class. One whose declaration failed is left alone. -/
def cls (k : ClassCheck) : Check Unit := do
  match ← lookup? k.decl.name.name with
  | none => return
  | some symbol =>
    match symbol.type with
    | some (.cls c) =>
      if symbol.origin.class?.any fun d => d.id == k.decl.id then
        trace .cyan ("  checking class " ++ c.name)
        inClass c do
          fields symbol k.fields
          if let some (m, body) := k.ctor then reporting (constructor c.name m body)
          methods c.name k.methods
    | _ => return

/-- A class written as an expression is declared where it stands. -/
def classExpr (k : ClassCheck) : Check Ty := do
  Declare.cls k.decl
  cls k
  return ((← classNamed? k.decl.name.name).map Ty.cls).getD .unknown

/-- Check a method whose result is needed before its turn. -/
def methodOnDemand (bodyOf : Callable → BodyCheck) (owner name : String) : Check Unit := do
  match ← lookup? owner with
  | none => return
  | some symbol =>
    match symbol.origin.class?.bind fun d => d.methods.find? fun m => m.name.name == name with
    | none => return
    | some m =>
      if (← get).isChecked m.id then return
      atHome symbol do
        match symbol.type with
        | some (.cls c) =>
          trace .yellow ("    inferring " ++ owner ++ "." ++ name ++ " on demand")
          reporting (inClass c (method owner m (bodyOf m)))
        | _ => return

end Rule

end TypedScript
