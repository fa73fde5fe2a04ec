import TypedScript.Checking.Check
import TypedScript.Type.Substitution

/-!
# Members

What `receiver.field` is, for every kind of receiver, and when a field may be assigned.

A method whose result is not known yet is checked when it is first looked at. How that
is done is a parameter here.
-/
namespace TypedScript

/-- How to check declarations whose results are needed before their turn. -/
structure Demand where
  function : Symbol → Check Unit
  /-- The method of this name in the class of this name. -/
  method : (owner name : String) → Check Unit

/-- The name under which constructors are checked. -/
def constructorName : String := "constructor"

namespace Ty

/-- A type taken apart into what it applies and what it binds. A type that is not
applied binds nothing. -/
def applied : Ty → Ty × Subst
  | generic base args =>
    match base with
    | cls c => (base, Subst.zip (c.typeParams.map TypeParam.name) args)
    | interface shape => (base, Subst.zip (shape.typeParams.map TypeParam.name) args)
    | _ => (base, [])
  | t => (t, [])

end Ty

namespace Member

open Check

def findIn? (c : Class) (name : String) : Check (Option Member) := do
  ofSearch ((← get).scopes.findMember c name)

/-- The member is a method and no property that holds a function. -/
def isMethodOf (c : Class) (m : Member) : Check Bool := do
  if m.type.signature?.isSome then
    return (← ofSearch ((← get).scopes.isMethod c m.name)) = some true
  else return false

/-- The name, where it is not refined, stands for a class declaration. -/
def namesClass (receiver : Option String) : Check Bool := do
  match receiver with
  | none => return false
  | some name =>
    let s ← get
    return (s.narrowed? name).isNone && (s.scopes.classNamed? name).isSome

def refuseNull {α : Type} (field : Ident) (receiver : Ty) : Check α :=
  refuse Code.invalidOperation field.location "receiver may be null"
    ("cannot access " ++ field.name ++ " on nullable " ++ receiver.text)
    "use ?. or check for null first"

def notFound {α : Type} (field : Ident) (typeName : String) : Check α := do
  fail (.fieldNotFound (← file) (some field.location) field.name typeName)

/-- The member with its result known, if a check of its body can tell it. -/
def settled (d : Demand) (c : Class) (m : Member) (name : String) : Check Member := do
  match m.type with
  | .function sig =>
    if sig.result.isUnknown then
      d.method m.owner name
      return (← findIn? c name).getD m
    else return m
  | _ => return m

/-- The member of a class, if it may be used here. Through the name of the class only
static members are reached. -/
def ofClass (d : Demand) (receiver : Option String) (c : Class) (field : Ident) :
    Check Member := do
  match ← findIn? c field.name with
  | none => notFound field c.name
  | some m =>
    match m.refusal? (← get).className with
    | some refusal =>
      fail (refusal.withPrimary (← file) (some field.location) "not accessible here")
    | none =>
      if (← namesClass receiver) && !m.isStatic then
        invalidOperation field.location
          (field.name ++ " is an instance member of " ++ m.owner)
      else settled d c m field.name

/-- The type of a member, unions of unions unfolded `limit` times at most. -/
def typeWithin (d : Demand) : Nat → Option String → Ty → Ident → Check Ty
  | 0, _, _, _ => throw (.misuse .endless)
  | limit + 1, receiver, t, field => do
    let (base, s) := (← deref t).applied
    match base with
    | .cls c =>
      let m ← ofClass d receiver c field
      deref (m.type.substitute s)
    | .interface shape =>
      match shape.property? field.name with
      | none => notFound field base.text
      | some p =>
        let t ← deref (p.type.substitute s)
        return if p.isOptional then t.orNull else t
    | .enum e =>
      match e.member? field.name with
      | some _ => return base
      | none => notFound field e.name
    | .nullable _ => refuseNull field base
    | .union ms =>
      let ts ← ms.mapM fun m =>
        if m.isNull then refuseNull field base else typeWithin d limit none m field
      return Ty.unionOf ts
    | _ =>
      if base.isAbsorbing then return .any
      match (← get).options.builtins.member? base field.name with
      | some t => return t
      | none => notFound field base.text

/-- A union shows further unions only behind a reference. -/
def unionDepth : Check Nat := do
  return (← get).scopes.chain.foldl (fun n scope => n + List.length scope) 2

/-- The type of `receiver.field`. The receiver's name, when it is one, tells the class
itself from its instances. -/
def typeOf (d : Demand) (receiver : Option String) (t : Ty) (field : Ident) : Check Ty := do
  typeWithin d (← unionDepth) receiver t field

/-- The type of `receiver?.field`. A member that is missing may be anything. -/
def optionalType (d : Demand) (receiver : Option String) (t : Ty) (field : Ident) :
    Check Ty := do
  let present := (← deref t).stripNull
  match present.applied.1 with
  | .cls _ | .interface _ =>
    tryCatch (Ty.orNull <$> typeOf d receiver present field) fun fault =>
      match fault with
      | .diagnostic e =>
        if e.code = Code.fieldNotFound then return Ty.any.orNull else throw fault
      | _ => throw fault
  | _ => return Ty.any.orNull

/-- A readonly property is set in the constructor of its own class only. -/
def isWritable (m : Member) : Check Bool := do
  if !m.isReadonly then return true
  let s ← get
  match s.function with
  | none => return false
  | some f => return f.name == constructorName && s.className == m.owner

/-- The type of `receiver.field` as the target of an assignment. -/
def targetType (d : Demand) (receiver : Option String) (t : Ty) (field : Ident) :
    Check Ty := do
  let (base, s) := (← deref t).applied
  match base with
  | .cls c =>
    let m ← ofClass d receiver c field
    if ← isMethodOf c m then
      refuse Code.invalidAssignment field.location "methods are not assignable"
        ("cannot assign to method " ++ m.name)
    else if !(← m.isWritable) then
      refuse Code.invalidAssignment field.location "readonly"
        ("cannot assign to readonly property " ++ m.name)
        ("readonly properties are set in the constructor of " ++ m.owner)
    else deref (m.type.substitute s)
  | _ => typeOf d receiver t field

end Member

end TypedScript
